import EDDTs.Library.Interleaving
import EDDTs.FuzzySync.RaceLoopSync
import EDDTs.Pan.SymbolRuns
import EDDTs.Pan.DriverFiles
import EDDTs.Pan.DriverSequential
import EDDTs.Pan.DriverExit
import EDDTs.Pan.DriverOutput
import EDDTs.Pan.RoundTrip
import EDDTs.Pan.ActiveFile
import EDDTs.Pan.SignalRatchet
import EDDTs.Pan.LaunchLoop
import EDDTs.Pan.ExecHandshake
import EDDTs.Pan.FailFile
import EDDTs.Beaglebone.Eeprom
import EDDTs.Beaglebone.EepromIntegrity
import EDDTs.Beaglebone.NorflashContent
import EDDTs.TstTest.Verdict
import EDDTs.Library.Trace
import EDDTs.Library.Calendar
import EDDTs.Library.Crc
import EDDTs.Boards.Rtc
import EDDTs.Boards.Gpio
import EDDTs.Boards.GpioRun
import EDDTs.Boards.TempSensor
import EDDTs.Beaglebone.Route
import EDDTs.Rpi2.Dma
import EDDTs.ReadAll.Workers
import EDDTs.Netstress.Runs
import EDDTs.Library.Checked
import EDDTs.Library.Multiples
import EDDTs.LtpLib.Checksum
import EDDTs.LtpLib.Timer
import EDDTs.LtpLib.Kvercmp
import EDDTs.LtpLib.Kconfig
import EDDTs.LtpLib.RandomRange
import EDDTs.Pan.CollectionArgs
import EDDTs.Pan.CollectionFile
import EDDTs.Pan.Substitution
import EDDTs.Pan.ZooLookup
import EDDTs.Pan.CutsStatus
import EDDTs.LtpLib.TimerWidth
import EDDTs.LtpLib.SysConf
import EDDTs.LtpLib.MntFlags
import EDDTs.LtpLib.Buffers
import EDDTs.LtpLib.TimerTest
import EDDTs.LtpLib.TimerOpts
import EDDTs.LtpLib.Condense
import EDDTs.LtpLib.GetPath
import EDDTs.Doio.Pattern
import EDDTs.Doio.WriteLogScan
import EDDTs.Doio.WriteLogStop
import EDDTs.NsTools.Checksum
import EDDTs.NsTools.Common
import EDDTs.LtpLib.RandomBit
import EDDTs.LtpLib.ParseRanges
import EDDTs.LtpLib.ScanfCount
import EDDTs.LtpLib.Hexd
import EDDTs.Pan.SplitStrArray
import EDDTs.TstTest.PrintResult
