import Cscrypto.Memory.GuardValues
import Cscrypto.Memory.GuardMoves
import Cscrypto.Memory.KeyRelease
import Cscrypto.Memory.EmptyKey
import Cscrypto.Memory.KeyPrograms
import Cscrypto.Base58.Machine
import Cscrypto.Mnemonic.SeedsAtRest
import Cscrypto.Mnemonic.Expansion
import Cscrypto.KeyExchange.Agreement
import Cscrypto.KeyExchange.Renewal
import Cscrypto.Cipher.Termination
import Cscrypto.Cipher.InPlace
import Cscrypto.Helpers.Text
import Cscrypto.Gui.KeyFileRoundTrip
import Cscrypto.Gui.EnglishPhrases
import Cscrypto.Gui.Binding
import Cscrypto.Gui.Selection
import Cscrypto.Gui.Roles
import Cscrypto.Gui.Validators
import Cscrypto.Gui.DatabaseConnections
import Cscrypto.Gui.RecordIds
import Cscrypto.Gui.ImportedSenders
import Cscrypto.Gui.SignatureTransfer
import Cscrypto.Gui.WrittenMessages
import Cscrypto.Gui.UninitialisedMembers
import Cscrypto.Gui.SessionExchange
import Cscrypto.Gui.Crashes
