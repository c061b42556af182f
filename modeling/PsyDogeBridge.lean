import PsyDogeBridge.GroupBitmap
import PsyDogeBridge.PublicInputs
import PsyDogeBridge.RecentBlocks
import PsyDogeBridge.ProcessedWithdrawals
import PsyDogeBridge.AuthenticMessages
import PsyDogeBridge.WithdrawableFees
import PsyDogeBridge.MintHandlers
import PsyDogeBridge.WithdrawalSnapshots
import PsyDogeBridge.FeeRates
import PsyDogeBridge.ManualDeposits
import PsyDogeBridge.AppendProofs
import PsyDogeBridge.PathRevert
import PsyDogeBridge.TxoLifecycle
import PsyDogeBridge.JsInstructions
import PsyDogeBridge.GenericBuffer
import PsyDogeBridge.MintBufferCreation
import PsyDogeBridge.MintDriver
import PsyDogeBridge.InMemoryRoot
import PsyDogeBridge.SignatureScript
import PsyDogeBridge.ReorgDecoding
import PsyDogeBridge.ReplaySpacing
import PsyDogeBridge.HistoryStream
import PsyDogeBridge.TxoAssembly
import PsyDogeBridge.OperatorScans
import PsyDogeBridge.ReplayedState
import PsyDogeBridge.VerifiedDeposits
