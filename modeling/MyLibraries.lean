import MyLibraries.AllwinnerH3.Model
import MyLibraries.AllwinnerH3.Pins
import MyLibraries.Apds9960.Direction
import MyLibraries.Apds9960.Model
import MyLibraries.Apds9960.Safety
import MyLibraries.ArgParser.Dispatch
import MyLibraries.ArgParser.Model
import MyLibraries.ArgParser.Split
import MyLibraries.Bitops.Endian
import MyLibraries.Bitops.Model
import MyLibraries.Bitops.Reverse
import MyLibraries.Bitops.Strings
import MyLibraries.Bme280.Calibration
import MyLibraries.Bme280.Model
import MyLibraries.Bme280.SeaLevel
import MyLibraries.Bmp180.Division
import MyLibraries.Bmp180.Model
import MyLibraries.Clock.Delays
import MyLibraries.Clock.Frequencies
import MyLibraries.Clock.Model
import MyLibraries.Control.PidC
import MyLibraries.Control.PidCpp
import MyLibraries.Core.Access
import MyLibraries.Core.BitField
import MyLibraries.Core.BitString
import MyLibraries.Core.Descriptors
import MyLibraries.Core.Device
import MyLibraries.Core.Feedback
import MyLibraries.Core.Heap
import MyLibraries.Core.Log
import MyLibraries.Core.Memory
import MyLibraries.Core.Mixing
import MyLibraries.Core.Orbit
import MyLibraries.Core.Paint
import MyLibraries.Core.Pieces
import MyLibraries.Core.PrefixSums
import MyLibraries.Core.Register
import MyLibraries.Core.RingBuffer
import MyLibraries.Core.Roster
import MyLibraries.Core.Run
import MyLibraries.Core.Segment
import MyLibraries.Core.Selection
import MyLibraries.Core.SlotBus
import MyLibraries.Core.Strobe
import MyLibraries.Core.Table
import MyLibraries.Core.Trie
import MyLibraries.Core.TwoWire
import MyLibraries.Core.TwosComplement
import MyLibraries.Core.Within
import MyLibraries.Core.Words
import MyLibraries.CppServer.Connections
import MyLibraries.CppServer.Invariant
import MyLibraries.CppServer.Model
import MyLibraries.Crc.Crc16
import MyLibraries.Crc.Crc32
import MyLibraries.Crc.Dallas
import MyLibraries.Crc.Fletcher
import MyLibraries.Crc.Standard
import MyLibraries.DevicesJson.Model
import MyLibraries.DevicesJson.Registers
import MyLibraries.Ds1822.Calls
import MyLibraries.Ds1822.Chip
import MyLibraries.Ds1822.Discovery
import MyLibraries.Ds1822.Model
import MyLibraries.Ds1822.Search
import MyLibraries.Ds1822.Session
import MyLibraries.Ds1822.Slots
import MyLibraries.FileOps.Columns
import MyLibraries.FileOps.Fields
import MyLibraries.FileOps.LineCount
import MyLibraries.FileOps.Lines
import MyLibraries.FileOps.Model
import MyLibraries.FileOps.Reading
import MyLibraries.FileOps.Reopen
import MyLibraries.FileOps.Stream
import MyLibraries.FileOps.Written
import MyLibraries.Filters.Complementary
import MyLibraries.Filters.Median
import MyLibraries.Filters.Model
import MyLibraries.Filters.MovingAverage
import MyLibraries.Filters.Smoothing
import MyLibraries.FrameBuffer.Circle
import MyLibraries.FrameBuffer.Flush
import MyLibraries.FrameBuffer.Glyph
import MyLibraries.FrameBuffer.Lines
import MyLibraries.FrameBuffer.Model
import MyLibraries.FrameBuffer.Window
import MyLibraries.Hash.Blocks
import MyLibraries.Hash.Model
import MyLibraries.HashDb.Chain
import MyLibraries.HashDb.Isolation
import MyLibraries.HashDb.Map
import MyLibraries.HashDb.Model
import MyLibraries.HashDb.Space
import MyLibraries.Hd44780.Cpp
import MyLibraries.Hd44780.CppPrint
import MyLibraries.Hd44780.Display
import MyLibraries.Hd44780.Model
import MyLibraries.Hd44780.Print
import MyLibraries.Hd44780.Screen
import MyLibraries.Hd44780.ToFile
import MyLibraries.Hd44780.Update
import MyLibraries.I2cGpio.Bytes
import MyLibraries.I2cGpio.Discipline
import MyLibraries.I2cGpio.Lines
import MyLibraries.I2cGpio.Model
import MyLibraries.I2cGpio.Transfer
import MyLibraries.Logger2.Model
import MyLibraries.Logger2.Records
import MyLibraries.Mfrc522.Model
import MyLibraries.Mfrc522.Operate32
import MyLibraries.Mfrc522.Order
import MyLibraries.Mfrc522.Replies
import MyLibraries.Mfrc522.Stored
import MyLibraries.Mpu6050.Model
import MyLibraries.Mpu6050.ZeroCal
import MyLibraries.Nrf24.Model
import MyLibraries.Nrf24.Modes
import MyLibraries.Nrf24.Receive
import MyLibraries.Nrf24.Settings
import MyLibraries.OneWire.Init
import MyLibraries.OneWire.Latch
import MyLibraries.OneWire.Model
import MyLibraries.OneWire.Multi
import MyLibraries.OneWire.Pass
import MyLibraries.OneWire.Search
import MyLibraries.OneWire.Single
import MyLibraries.OneWire.Word
import MyLibraries.Ota.Download
import MyLibraries.Ota.Lifecycle
import MyLibraries.Ota.Model
import MyLibraries.Ota.Offsets
import MyLibraries.Ota.Process
import MyLibraries.Ota.Reload
import MyLibraries.Ota.Safety
import MyLibraries.Ota.Steps
import MyLibraries.Plbus.Bounds
import MyLibraries.Plbus.Crc
import MyLibraries.Plbus.Frame
import MyLibraries.Plbus.Header
import MyLibraries.Plbus.Model
import MyLibraries.Plbus.Resync
import MyLibraries.Plbus.RoundTrip
import MyLibraries.Rand.Counters
import MyLibraries.Rand.Ranq1
import MyLibraries.Rand.TinyMt
import MyLibraries.RaspiGpio.Model
import MyLibraries.RaspiGpio.Pins
import MyLibraries.Server.AcceptLoop
import MyLibraries.Server.Clients
import MyLibraries.Server.Closing
import MyLibraries.Server.Model
import MyLibraries.SimpleDb.Checksum
import MyLibraries.SimpleDb.Corruption
import MyLibraries.SimpleDb.Elements
import MyLibraries.SimpleDb.Layout
import MyLibraries.SimpleDb.Model
import MyLibraries.SimpleDb.Operations
import MyLibraries.SimpleDb.Records
import MyLibraries.SimpleDb.Requests
import MyLibraries.SimpleDb.Rows
import MyLibraries.SimpleDb.Store
import MyLibraries.SimpleDb.Tags
import MyLibraries.SimpleDb.Wide
import MyLibraries.Ssd1289.Characters
import MyLibraries.Ssd1289.Model
import MyLibraries.StateMachine.Agreement
import MyLibraries.StateMachine.C
import MyLibraries.StateMachine.Cpp
import MyLibraries.StateMachine.Failure
import MyLibraries.StateMachine.Model
import MyLibraries.Stepper.Accepted
import MyLibraries.Stepper.Calls
import MyLibraries.Stepper.Completion
import MyLibraries.Stepper.Distance
import MyLibraries.Stepper.Edges
import MyLibraries.Stepper.Execution
import MyLibraries.Stepper.Filling
import MyLibraries.Stepper.Interrupts
import MyLibraries.Stepper.Model
import MyLibraries.Stepper.Pulses
import MyLibraries.Stepper.Queue
import MyLibraries.Stepper.Reads
import MyLibraries.Stepper.Schedule
import MyLibraries.Stepper.Speed
import MyLibraries.Stepper.Stop
import MyLibraries.Stm32Gpio.Board
import MyLibraries.Stm32Gpio.Devices
import MyLibraries.Stm32Gpio.Model
import MyLibraries.SwI2c.Model
import MyLibraries.SwI2c.Polling
import MyLibraries.SwI2c.Session
import MyLibraries.SwI2c.Success
import MyLibraries.SwI2c.Transfer
import MyLibraries.SwI2c.Wire
import MyLibraries.TcpServer.AcceptThread
import MyLibraries.TcpServer.Connections
import MyLibraries.TcpServer.Invariant
import MyLibraries.TcpServer.Model
