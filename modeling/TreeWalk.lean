import TreeWalk.Eval.Depth
import TreeWalk.Inquiry
import TreeWalk.NameTable.Directory
import TreeWalk.Proofs.Coincidence
import TreeWalk.Proofs.Confinement
import TreeWalk.Proofs.DeadScope
import TreeWalk.Proofs.Exactness
import TreeWalk.Proofs.Failure
import TreeWalk.Proofs.Hosting
import TreeWalk.Proofs.LineGrammar
import TreeWalk.Proofs.Lookahead
import TreeWalk.Proofs.MissingArgument
import TreeWalk.Proofs.Nesting
import TreeWalk.Proofs.Numbering
import TreeWalk.Proofs.Printing
import TreeWalk.Proofs.Provenance
import TreeWalk.Proofs.Readback
import TreeWalk.Proofs.Recording
import TreeWalk.Proofs.Refinement
import TreeWalk.Proofs.Repetition
import TreeWalk.Proofs.Roll
import TreeWalk.Proofs.Sessions
import TreeWalk.Proofs.Shadowing
import TreeWalk.Proofs.Sources
import TreeWalk.Proofs.Termination
import TreeWalk.Session
