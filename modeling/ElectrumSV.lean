import ElectrumSV.Basic
import ElectrumSV.Scanner.Basic
import ElectrumSV.Scanner.Enumerator
import ElectrumSV.Scanner.EnumeratorRun
import ElectrumSV.Scanner.Loop
import ElectrumSV.Scanner.Bookkeeping
import ElectrumSV.Scanner.Liveness
import ElectrumSV.Scanner.GapLimit
import ElectrumSV.Transaction.Packing
import ElectrumSV.Transaction.XPublicKey
import ElectrumSV.Transaction.Wire
import ElectrumSV.Transaction.Dict
import ElectrumSV.Transaction.Offsets
import ElectrumSV.Script.Push
import ElectrumSV.Script.Machine
import ElectrumSV.Script.Accumulator
import ElectrumSV.Transaction.ScriptSig
import ElectrumSV.Transaction.Extended
import ElectrumSV.Transaction.Size
import ElectrumSV.Transaction.BipLI01
import ElectrumSV.Transaction.Sign
import ElectrumSV.Transaction.UpdateSignatures
import ElectrumSV.ApiServer
import ElectrumSV.Servers
import ElectrumSV.ExchangeRate
import ElectrumSV.FiatAmount
import ElectrumSV.GeneralApi
import ElectrumSV.Transaction.Fee
