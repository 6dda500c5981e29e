import LibCheckpoint.Interleave
import LibCheckpoint.Count
import LibCheckpoint.Bytes
import LibCheckpoint.Rv64
import LibCheckpoint.Csr
import LibCheckpoint.Registers
import LibCheckpoint.Masks
import LibCheckpoint.Asm
import LibCheckpoint.Layout
import LibCheckpoint.Jal
import LibCheckpoint.Restorer
import LibCheckpoint.Phase
import LibCheckpoint.Effect
import LibCheckpoint.Barrier
import LibCheckpoint.Reset
import LibCheckpoint.Progress
import LibCheckpoint.Clock
import LibCheckpoint.Path
import LibCheckpoint.Exit
import LibCheckpoint.Solo
import LibCheckpoint.Outcome
import LibCheckpoint.Vector
import LibCheckpoint.Isolation
import LibCheckpoint.Host
import LibCheckpoint.Enable
import LibCheckpoint.Pmp
import LibCheckpoint.Hypervisor
import LibCheckpoint.Alias
import LibCheckpoint.Timer
import LibCheckpoint.Extension
import LibCheckpoint.Status
import LibCheckpoint.Privilege
import LibCheckpoint.Resume
import LibCheckpoint.Interrupt
import LibCheckpoint.Payload
import LibCheckpoint.Boot
import LibCheckpoint.Decode
import LibCheckpoint.Pause
import LibCheckpoint.Trap
import LibCheckpoint.Spinlock
import LibCheckpoint.Locks
import LibCheckpoint.Entry
import LibCheckpoint.Whole
import LibCheckpoint.Memory
import LibCheckpoint.Sink
import LibCheckpoint.Numeral
import LibCheckpoint.Ntoa
import LibCheckpoint.Field
import LibCheckpoint.Reader
import LibCheckpoint.Printf
import LibCheckpoint.Format
import LibCheckpoint.Vsnprintf
import LibCheckpoint.Conversions
import LibCheckpoint.Console
import LibCheckpoint.Delimited
import LibCheckpoint.Display
import LibCheckpoint.Shown
import LibCheckpoint.Fair
import LibCheckpoint.Finish
