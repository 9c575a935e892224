import Shellwright.Main
import Shellwright.Proofs.Literals
import Shellwright.Proofs.Meaning
import Shellwright.Proofs.ParserComplete
import Shellwright.Proofs.Places
import Shellwright.Script.Session
import Shellwright.Script.Text
import Shellwright.Proofs.Scopes
import Shellwright.Proofs.Scoping
import Shellwright.Proofs.Loading
import Shellwright.Proofs.ImportCycles
import Shellwright.Proofs.ProjectContents
import Shellwright.Proofs.WrittenText
import Shellwright.Proofs.WellFormed
import Shellwright.Proofs.Faults
import Shellwright.Proofs.Mirroring
import Shellwright.Proofs.Neutrality
import Shellwright.Proofs.Sessions
import Shellwright.Proofs.Spellings
import Shellwright.Proofs.Diagnostics
import Shellwright.Proofs.Rereading
import Shellwright.Proofs.Attribution
import Shellwright.Proofs.Origins
import Shellwright.Proofs.WordSplitting
import Shellwright.Proofs.Commands
import Shellwright.Proofs.Joins
import Shellwright.Proofs.LocalVariables
import Shellwright.Proofs.Mentions
import Shellwright.Proofs.Parameters
import Shellwright.Proofs.EmptyCommands
import Shellwright.Proofs.Refusals
import Shellwright.Proofs.WithoutImports
import Shellwright.Proofs.Libraries
import Shellwright.Proofs.FileTrees
import Shellwright.Proofs.Flags
import Shellwright.Proofs.Builds
import Shellwright.Proofs.Suggestions
import Shellwright.Proofs.Lines
import Shellwright.Proofs.Interpolation
import Shellwright.Proofs.MinusSigns
