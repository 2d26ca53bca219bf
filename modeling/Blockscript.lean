import Blockscript.Main
import Blockscript.Proofs.Commands.Files
import Blockscript.Proofs.Commands.Prompt
import Blockscript.Proofs.Reading.Following
import Blockscript.Proofs.Reading.OpenBlocks
import Blockscript.Proofs.Reading.Passes
import Blockscript.Proofs.Running.ForLoops
import Blockscript.Proofs.Running.Truncated
import Blockscript.Proofs.Scanning.Cutting
import Blockscript.Proofs.Scoping.Refinement
import Blockscript.Proofs.Scoping.Restored
import Blockscript.Proofs.Sessions.Globals
import Blockscript.Proofs.Sessions.History
import Blockscript.Proofs.Sessions.Layout
import Blockscript.Proofs.Sessions.Numbers
import Blockscript.Proofs.Sessions.Outlines
import Blockscript.Proofs.Sessions.Sources
import Blockscript.Proofs.Scanning.Taking
import Blockscript.Proofs.Scoping.Shared
import Blockscript.Proofs.Scoping.Evaluated
import Blockscript.Proofs.Reading.Braces
import Blockscript.Proofs.Reading.Around
import Blockscript.Proofs.Reading.Landing
import Blockscript.Proofs.Reading.OneError
import Blockscript.Proofs.Reading.Resuming
import Blockscript.Proofs.Numbers.Texts
import Blockscript.Proofs.Numbers.Closest
import Blockscript.Proofs.Numbers.Written
import Blockscript.Proofs.Running.Equality
