import Nios2Ecos.XyzModem
import Nios2Ecos.LineTranscript
import Nios2Ecos.PacketReceiver
import Nios2Ecos.StreamRead
import Nios2Ecos.YmodemUpload
import Nios2Ecos.PaddingDebt
import Nios2Ecos.UploadFidelity
import Nios2Ecos.UploadVerdict
import Nios2Ecos.CyclicWindow
import Nios2Ecos.FirmwarePartition
import Nios2Ecos.KeyLedger
import Nios2Ecos.OethKeys
import Nios2Ecos.OethReceive
import Nios2Ecos.TseReceive
import Nios2Ecos.JtagUart
import Nios2Ecos.LineBuffer
import Nios2Ecos.Uart
import Nios2Ecos.TseTransmit
import Nios2Ecos.AsyncBreakpoint
import Nios2Ecos.ContextSwitch
import Nios2Ecos.ContextSystem
import Nios2Ecos.EpcsErase
import Nios2Ecos.EpcsRoundTrip
import Nios2Ecos.ExceptionRoundTrip
import Nios2Ecos.InterruptCalls
import Nios2Ecos.InterruptDispatch
import Nios2Ecos.LineEditor
import Nios2Ecos.GunzipStreaming
import Nios2Ecos.OethMulticast
import Nios2Ecos.TseMulticast
import Nios2Ecos.BreakpointRounds
import Nios2Ecos.CompactFlash
import Nios2Ecos.DataCache
import Nios2Ecos.BitSearch
import Nios2Ecos.LcdTextLaw
import Nios2Ecos.LcdBounds
import Nios2Ecos.LcdScroll
import Nios2Ecos.LcdShadow
import Nios2Ecos.TextLines
import Nios2Ecos.CoveredBytes
import Nios2Ecos.SRecord
import Nios2Ecos.SRecordReader
import Nios2Ecos.SRecordRoundTrip
import Nios2Ecos.FuelledResult
import Nios2Ecos.SpiMaster
import Nios2Ecos.EpcsChip
import Nios2Ecos.EpcsWire
import Nios2Ecos.EpcsRewrite
import Nios2Ecos.OcmTransmit
import Nios2Ecos.OcmReceive
import Nios2Ecos.YmodemTransfer
import Nios2Ecos.ThreadKeys
import Nios2Ecos.EthCrc
import Nios2Ecos.EthDeliver
import Nios2Ecos.EthDeliverRun
import Nios2Ecos.EthGroups
import Nios2Ecos.EthLoopback
import Nios2Ecos.PosixThreads
import Nios2Ecos.ThreadJoins
