import Postgread.Convey.Run
import Postgread.Convey.Rejection
import Postgread.Convey.Handshake
import Postgread.Convey.Decoding
import Postgread.Convey.Race
import Postgread.Convey.Transitions
import Postgread.Convey.StartupLanguage
import Postgread.Convey.ExecuteLanguage
import Postgread.Convey.Accounts
import Postgread.Convey.Recovery
import Postgread.Convey.Timing
import Postgread.Convey.Reconstruction
import Postgread.Convey.SessionLanguage
import Postgread.Convey.Segmentation
import Postgread.Convey.Writers
import Postgread.Convey.Builds
import Postgread.Convey.Between
import Postgread.Convey.Priority
import Postgread.Server.Numbers
import Postgread.Msg.Wire.Query
import Postgread.Msg.Wire.ErrorAndNotice
import Postgread.Msg.Wire.Puts
import Postgread.Msg.Loops
import Postgread.Msg.Framing
