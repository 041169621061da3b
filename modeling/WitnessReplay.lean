import WitnessReplay.Command.Run
import WitnessReplay.Host.World
import WitnessReplay.Main
import WitnessReplay.Proofs.Command.Conclusion
import WitnessReplay.Proofs.Program.Declarator
import WitnessReplay.Proofs.Program.Beginning
import WitnessReplay.Proofs.Program.Directive
import WitnessReplay.Proofs.Program.Progress
import WitnessReplay.Proofs.Replay.Beyond
import WitnessReplay.Proofs.Replay.Conservation
import WitnessReplay.Proofs.Replay.Hint
import WitnessReplay.Proofs.Replay.Linking
import WitnessReplay.Proofs.Replay.Nesting
import WitnessReplay.Proofs.Replay.Pinning
import WitnessReplay.Proofs.Replay.Placement
import WitnessReplay.Proofs.Replay.Refusal
import WitnessReplay.Proofs.Replay.Reprinting
import WitnessReplay.Proofs.Replay.Selection
import WitnessReplay.Proofs.Sanitation.Comment
import WitnessReplay.Proofs.Sanitation.Construct
import WitnessReplay.Proofs.Sanitation.Grouping
import WitnessReplay.Proofs.Sanitation.Locating
import WitnessReplay.Proofs.Sanitation.Matching
import WitnessReplay.Proofs.Sanitation.Position
import WitnessReplay.Proofs.Sanitation.Rewriting
import WitnessReplay.Proofs.Sanitation.Surgery
import WitnessReplay.Proofs.Trial.Agreement
import WitnessReplay.Proofs.Witness.Declaration
import WitnessReplay.Proofs.Sanitation.NormalForm
import WitnessReplay.Proofs.Replay.AssumptionText
import WitnessReplay.Proofs.Replay.Unlocated
import WitnessReplay.Proofs.Source.LineRange
import WitnessReplay.Proofs.Witness.Numbering
import WitnessReplay.Proofs.GraphML.Lookup
import WitnessReplay.Proofs.Trial.Evidence
import WitnessReplay.Proofs.Replay.Relinking
import WitnessReplay.Proofs.Source.LineIndex
import WitnessReplay.Proofs.Replay.NumberGrammar
import WitnessReplay.Proofs.Replay.Obstacle
import WitnessReplay.Proofs.Source.Tiling
