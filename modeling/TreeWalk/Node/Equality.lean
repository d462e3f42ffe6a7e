import TreeWalk.Node

/-!
# Equality of trees

Two trees are equal if they have the same shape and the same numbers, names and
operators.  Names are compared as names: what text a table gives them does not
matter.

## Main definitions

* `Node.same`, `Node.sameAll`, `Node.sameBranch`: the comparison, over trees,
  statement lists and optional branches
* `Node.same_iff`: the comparison decides equality

The instances of `DecidableEq` for `Node` and `Function` rest on `Node.same_iff`.
-/

namespace TreeWalk

namespace Node

mutual

/-- Compare two trees. -/
def same : Node → Node → Bool
  | .number a, .number b => a = b
  | .reference x, .reference y => x = y
  | .unary o a, .unary p b => o = p && same a b
  | .binary o a b, .binary p c d => o = p && same a c && same b d
  | .literal xs as, .literal ys bs => xs = ys && sameAll as bs
  | .define x xs as, .define y ys bs => x = y && xs = ys && sameAll as bs
  | .call a as, .call b bs => same a b && sameAll as bs
  | .conditional a as c, .conditional b bs d => same a b && sameAll as bs && sameBranch c d
  | .print a, .print b => same a b
  | .read x, .read y => x = y
  | _, _ => false

/-- Compare two lists of trees. -/
def sameAll : List Node → List Node → Bool
  | [], [] => true
  | a :: as, b :: bs => same a b && sameAll as bs
  | _, _ => false

/-- Compare two optional branches. -/
def sameBranch : Option (List Node) → Option (List Node) → Bool
  | none, none => true
  | some as, some bs => sameAll as bs
  | _, _ => false

end

mutual

/-- The comparison decides equality of trees. -/
theorem same_iff : ∀ a b : Node, same a b = true ↔ a = b
  | .number _, b => by cases b <;> simp [same]
  | .reference _, b => by cases b <;> simp [same]
  | .unary _ a, b => by cases b <;> simp [same, same_iff a]
  | .binary _ a b, c => by cases c <;> simp [same, same_iff a, same_iff b, and_assoc]
  | .literal _ as, b => by cases b <;> simp [same, sameAll_iff as]
  | .define _ _ as, b => by cases b <;> simp [same, sameAll_iff as, and_assoc]
  | .call a as, b => by cases b <;> simp [same, same_iff a, sameAll_iff as]
  | .conditional a as c, b => by
    cases b <;> simp [same, same_iff a, sameAll_iff as, sameBranch_iff c, and_assoc]
  | .print a, b => by cases b <;> simp [same, same_iff a]
  | .read _, b => by cases b <;> simp [same]

/-- The comparison decides equality of statement lists. -/
theorem sameAll_iff : ∀ as bs : List Node, sameAll as bs = true ↔ as = bs
  | [], bs => by cases bs <;> simp [sameAll]
  | a :: as, bs => by cases bs <;> simp [sameAll, same_iff a, sameAll_iff as]

/-- The comparison decides equality of branches. -/
theorem sameBranch_iff : ∀ as bs : Option (List Node), sameBranch as bs = true ↔ as = bs
  | none, bs => by cases bs <;> simp [sameBranch]
  | some as, bs => by cases bs <;> simp [sameBranch, sameAll_iff as]

end

instance : DecidableEq Node := fun a b => decidable_of_iff _ (same_iff a b)

end Node

instance : DecidableEq Function := fun f g =>
  decidable_of_iff (f.params = g.params ∧ f.body = g.body) (by
    cases f
    cases g
    simp)

end TreeWalk
