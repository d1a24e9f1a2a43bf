import Clipboard.Backend

/-!
# A clipboard in memory

A clipboard that lives as long as its state.  It can be opened once at a time,
and only an open one is read or written.  Another owner can be played by
`inject`, which puts content there without opening it, and by `hold`, which
makes the next openings find it busy.

* `Memory.peek_inject`: what is injected is all that is there.
-/

namespace Clipboard

/-- The content and the state of access of a clipboard in memory. -/
structure Memory where
  /-- The content, an entry for each format. -/
  entries : List (Format.Id × Octets) := []
  isOpen : Bool := false
  /-- Openings that will still be refused. -/
  held : Nat := 0
  /-- Openings that have been tried. -/
  attempts : Nat := 0
  deriving DecidableEq, Repr

/-- Where a clipboard in memory keeps its text. -/
inductive MemoryLayout where
  /-- As UTF-8 under a media type. -/
  | unix
  /-- As UTF-16 under a format number. -/
  | windows
  deriving DecidableEq, Repr

/-- The first entry of a format. -/
def contentOf? (entries : List (Format.Id × Octets)) (id : Format.Id) : Option Octets :=
  (entries.find? fun e => e.1 = id).map (·.2)

namespace MemoryLayout

/-- The name of a backend with this layout. -/
def name : MemoryLayout → String
  | unix => "memory"
  | windows => "memory-utf16"

/-- The one format of text. -/
def textFormat : MemoryLayout → Format
  | unix => ⟨.named "text/plain;charset=utf-8", .utf8, true⟩
  | windows => ⟨.number 13, .utf16le, true⟩

/-- How text is laid out. -/
def convention : MemoryLayout → Convention
  | unix => .unix
  | windows => .windows

/-- The formats of a kind. -/
def formatsFor (layout : MemoryLayout) : Kind → List Format
  | .text => [layout.textFormat]
  | .custom name => [⟨.named name, .opaqueData, true⟩]

end MemoryLayout

namespace Memory

/-- Refusing the next openings. -/
def hold (m : Memory) (openings : Nat) : Memory := { m with held := openings }

/-- Putting another owner's content there. -/
def inject (m : Memory) (id : Format.Id) (bytes : Octets) : Memory :=
  { m with entries := [(id, bytes)] }

/-- The octets under a format. -/
def peek (m : Memory) (id : Format.Id) : Option Octets := contentOf? m.entries id

/-- What is injected is all that is there. -/
theorem peek_inject (m : Memory) (id id' : Format.Id) (bytes : Octets) :
    (m.inject id bytes).peek id' = if id = id' then some bytes else none := by
  by_cases h : id = id' <;> simp [inject, peek, contentOf?, h]

/-- One try to open it. -/
def acquire : Action Memory Failure Unit := fun m =>
  let m := { m with attempts := m.attempts + 1 }
  if 0 < m.held then (.failed (.busy "held by another owner"), { m with held := m.held - 1 })
  else if m.isOpen then (.failed (.busy "already open"), m)
  else (.done (), { m with isOpen := true })

/-- Something done to an open one. -/
def whileOpen {α : Type} (f : Memory → α × Memory) : Action Memory Failure α := fun m =>
  if m.isOpen then (.done (f m).1, (f m).2)
  else (.failed (.protocol "memory clipboard is not open"), m)

/-- The backend of a clipboard in memory. -/
def backend (layout : MemoryLayout) : Backend Memory where
  name := layout.name
  ownership := .service
  convention := layout.convention
  formatsFor kind := pure (layout.formatsFor kind)
  acquire := acquire
  release := Action.update fun m => { m with isOpen := false }
  offers id := whileOpen fun m => ((m.peek id).isSome, m)
  read f := whileOpen fun m => ((m.peek f.id).map fun bytes => ⟨bytes, f.encoding⟩, m)
  write items := whileOpen fun m =>
    ((), { m with entries := items.map fun item => (item.1.id, item.2.bytes) })
  clear := whileOpen fun m => ((), { m with entries := [] })

end Memory

end Clipboard
