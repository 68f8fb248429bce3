import S6Soc.Clocked
import S6Soc.DblFetch
import S6Soc.DblFetchStream
import S6Soc.SysPipeFifo
import S6Soc.KernelEvents
import S6Soc.KernelTimeouts
import S6Soc.TimerTicks
import S6Soc.PipeWakeups
import S6Soc.PipeArguments
import S6Soc.AudioPipe
import S6Soc.TaskMemory
import S6Soc.LoadStore
import S6Soc.BusAnswers
import S6Soc.ZipBones
import S6Soc.TtyBus
import S6Soc.AddressCodes
import S6Soc.FlashProtection
import S6Soc.LoaderImage
import S6Soc.ZipTimer
import S6Soc.PendingLines
import S6Soc.Divide
import S6Soc.AluFlags
import S6Soc.Multiply
import S6Soc.Scheduling
import S6Soc.SoftDivide
import S6Soc.PipeProgress
import S6Soc.PipeReads
import S6Soc.SerialLine
import S6Soc.TxUartLite
import S6Soc.RxUartLite
import S6Soc.UartLink
import S6Soc.Units
import S6Soc.FailedLoads
import S6Soc.Resets
import S6Soc.ReadIdle
import S6Soc.WbPwmAudio
import S6Soc.RtcSim
import S6Soc.Console
import S6Soc.FlashErase
import S6Soc.SerialTransfer
import S6Soc.WbScope
import S6Soc.FetchErrors
import S6Soc.Memcpy
import S6Soc.UserMode
import S6Soc.WriteBack
import S6Soc.CpuBus
import S6Soc.Compressed
import S6Soc.IssueOrder
import S6Soc.Execution
import S6Soc.ReadWord
import S6Soc.ReplyCodes
import S6Soc.ReplyLine
import S6Soc.WbuFifo
import S6Soc.Replies
import S6Soc.Commands
import S6Soc.HostReads
import S6Soc.ReadBlocks
