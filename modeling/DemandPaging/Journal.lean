import DemandPaging.Access
import DemandPaging.Space.Coverage

/-!
# The kernel's journal

Operations report what they do as `Event`s.  An event is data: which frame, which
page, which process.  How severe it is (`Event.level`) and how it reads
(`Event.message`) are functions of the event, kept here and nowhere else, and whether
anybody gets to see it is decided last, by a `Threshold`.

So the journal never influences the kernel: an operation records the same events
whatever the threshold is, and the threshold is applied to the finished journal
(`Event.line?`).
-/

namespace DemandPaging

/-- **Levels** of severity, the most severe first. -/
inductive Level where
  | error
  | warn
  | info
  | debug
  | trace
deriving DecidableEq

namespace Level

/-- The position of a level, counted from the most severe. -/
def rank : Level → Nat
  | error => 1
  | warn => 2
  | info => 3
  | debug => 4
  | trace => 5

/-- The level as it heads a line. -/
def name : Level → String
  | error => "ERROR"
  | warn => "WARN"
  | info => "INFO"
  | debug => "DEBUG"
  | trace => "TRACE"

/-- A finished line of the journal. -/
def line (l : Level) (text : String) : String := s!"[{l.name}] {text}\n"

end Level

/-- **Thresholds**: the least severe level that is still shown, or nothing at all. -/
inductive Threshold where
  | off
  | upTo (level : Level)
deriving DecidableEq

namespace Threshold

/-- Whether events of a level are shown. -/
def admits : Threshold → Level → Bool
  | off, _ => false
  | upTo m, l => l.rank ≤ m.rank

/-- The threshold as a word. -/
def name : Threshold → String
  | off => "OFF"
  | upTo l => l.name

@[simp] theorem admits_off (l : Level) : off.admits l = false := rfl

@[simp] theorem admits_upTo (m l : Level) : (upTo m).admits l = decide (l.rank ≤ m.rank) := rfl

end Threshold

/-- **Events**: what the kernel reports about itself. -/
inductive Event where
  /-- Usable memory above `limit` is ignored, for want of room for one more hole. -/
  | holesExhausted (limit : Nat)
  /-- The frame map was built at `base`. -/
  | frameMapReady (base : PhysAddr) (frames free : Nat)
  /-- A page table grew to this many slots. -/
  | tableGrown (slots : Nat)
  /-- A page table with this many entries was given up. -/
  | tableReleased (entries : Nat)
  /-- A mapping was cached. -/
  | cached (slot : Nat) (page : Page) (frame : Frame)
  /-- A region was declared. -/
  | regionDeclared (region : Region)
  /-- An address space was prepared for loading and maps this many pages. -/
  | prepared (space pages : Nat)
  /-- An address space was duplicated. -/
  | duplicated (source copy : Nat)
  /-- An address space could not be duplicated. -/
  | duplicationFailed (error : MemoryError)
  /-- An address space is being taken down. -/
  | destroying (space : Nat)
  /-- A page fault arrived. -/
  | faulted (access : Access) (address : VirtAddr)
  /-- A fault was a write to a page held read-only. -/
  | readOnlyWrite (address : VirtAddr)
  /-- A fault was outside everything the program may touch. -/
  | uncovered (address : VirtAddr)
  /-- The faulting page has a mapping, which the cache had lost. -/
  | alreadyMapped (page : Page)
  /-- A fault was an access that its page does not permit. -/
  | forbidden (access : Access) (address : VirtAddr)
  /-- No frame was left for a faulting page. -/
  | outOfFrames (address : VirtAddr)
  /-- A faulting page was brought in. -/
  | mapped (page : Page) (frame : Frame) (coverage : Coverage)
  /-- No cache slot was left for a resolved fault. -/
  | cacheFull (address : VirtAddr)
  /-- A process was created. -/
  | processCreated (pid : Nat)
  /-- A process was built from a program and starts at `entry`. -/
  | processLoaded (pid : Nat) (entry : VirtAddr)
  /-- A process was duplicated. -/
  | processForked (parent child : Nat)
  /-- A process failed for good. -/
  | processFailed (pid : Nat) (error : MemoryError)
  /-- A process ended. -/
  | processExited (pid : Nat) (status : Int)

namespace Event

/-- How severe an event is. -/
def level : Event → Level
  | cacheFull _ => .error
  | holesExhausted _ => .warn
  | duplicationFailed _ => .warn
  | readOnlyWrite _ => .warn
  | uncovered _ => .warn
  | forbidden _ _ => .warn
  | outOfFrames _ => .warn
  | frameMapReady _ _ _ => .info
  | cached _ _ _ => .trace
  | faulted _ _ => .trace
  | alreadyMapped _ => .trace
  | _ => .debug

/-- How an event reads. -/
def message : Event → String
  | holesExhausted limit => s!"Too many memory holes, ignoring memory above {hex limit}"
  | frameMapReady base frames free =>
      s!"Frame map ready at {hex base.val}: {frames} frames, {free} free"
  | tableGrown slots => s!"Page table grown to {slots} slots"
  | tableReleased entries => s!"Released page table with {entries} entries"
  | cached slot p f => s!"TLB slot {slot}: {hex p.start.val} -> {hex f.start.val}"
  | regionDeclared r => s!"Region {hex r.start.val} +{r.pageCount} pages ({r.permission.text})"
  | prepared space pages => s!"Prepared address space {space}: {pages} pages"
  | duplicated source copy => s!"Copied address space {source} into {copy}"
  | duplicationFailed e => s!"Address space copy failed: {e.message}"
  | destroying space => s!"Destroying address space {space}"
  | faulted access a => s!"Page fault ({access.name}) at {hex a.val}"
  | readOnlyWrite a => s!"Write to read-only page at {hex a.val}"
  | uncovered a => s!"Segmentation fault at {hex a.val}"
  | alreadyMapped p => s!"Page {hex p.start.val} already mapped"
  | forbidden access a => s!"Protection violation ({access.name}) at {hex a.val}"
  | outOfFrames a => s!"Out of memory resolving fault at {hex a.val}"
  | mapped p f coverage => s!"Mapped {hex p.start.val} -> {hex f.start.val} ({coverage.inspect})"
  | cacheFull a => s!"Translation cache full at {hex a.val}"
  | processCreated pid => s!"Process {pid} created"
  | processLoaded pid entry => s!"Loaded process {pid}: entry {hex entry.val}"
  | processForked parent child => s!"Process {parent} forked child {child}"
  | processFailed pid e => s!"Process {pid}: {e.message}"
  | processExited pid status => s!"Process {pid} exited with {status}"

/-- The line an event makes in a journal shown up to a threshold. -/
def line? (shown : Threshold) (e : Event) : Option String :=
  if shown.admits e.level then some (e.level.line e.message) else none

end Event

/-! ### Loggers

A logger stands between whoever reports something and the sink that shows it.  Until a
sink is set, everything is dropped. -/

/-- **Loggers**: whether there is a sink to write to. -/
structure Logger where
  hasSink : Bool := false

namespace Logger

/-- The same logger, with a sink. -/
def withSink (_ : Logger) : Logger := ⟨true⟩

/-- The lines the sink is given for one report. -/
def write (g : Logger) (shown : Threshold) (level : Level) (text : String) : List String :=
  if shown.admits level && g.hasSink then [level.line text] else []

@[simp] theorem write_of_no_sink (shown : Threshold) (level : Level) (text : String) :
    (⟨false⟩ : Logger).write shown level text = [] := by
  simp [write]

end Logger

/-- **Logging of the whole machine**: whether a logger is installed, and the threshold. -/
structure Logging where
  installed : Bool
  shown : Threshold
deriving DecidableEq

namespace Logging

/-- What a processor does about logging when it comes up: the first one installs the
logger and shows everything up to debugging, the others leave it to the first.  The
logger can be installed once only; a second attempt fails and changes nothing. -/
def start (g : Logging) (processor : Nat) : Bool × Logging :=
  if processor ≠ 0 then (true, g)
  else if g.installed then (false, g)
  else (true, ⟨true, .upTo .debug⟩)

end Logging

end DemandPaging
