import Nonblocking.Item
import Nonblocking.NameTable
import Nonblocking.Pool.Depot
import Nonblocking.Session

/-! # Sessions on two pools

Steps take blocks, keep their handles under names, write, read and exchange items, let indices go
and take them back. A handle that is filed under a name in use replaces the older one, which is
dropped once the new one is there. -/
namespace Nonblocking

inductive Handle
  | unwritten (handle : Unwritten)
  | written (handle : Block)
  deriving DecidableEq, Repr

namespace Handle

def index : Handle → Nat
  | unwritten u => u.index
  | written b => b.index

end Handle

namespace Depot

open Text (Tree)

variable {α : Type} {n : Nat}

def dropHandle (d : Depot α n) : Handle → Depot α n
  | .unwritten u => d.discard u
  | .written b => d.drop b

def blockTree [Item α] (d : Depot α n) (b : Block) : Option Tree :=
  (d.read b).map fun item =>
    .record "Block" [("index", .ofNat b.index), ("item", Item.tree item)]

/-- A field that a request may lack is an `Option`. -/
inductive Step (α : Type)
  | alloc (name : Option String) (side : Side)
  | allocWith (name : Option String) (side : Side) (item : Option α)
  | write (name : Option String) (item : Option α)
  | rawWrite (name : Option String) (item : Option α)
  | get (name : Option String)
  | set (name : Option String) (item : Option α)
  | debugBlock (name : Option String) (style : Tree.Style)
  | swap (name other : Option String)
  | index (name : Option String)
  | distance (name other : Option String)
  | dealloc (name : Option String) (side : Side)
  | drop (name : Option String)
  | dropAll
  | intoIndex (name : Option String)
  | fromIndex (name : Option String) (side : Side) (index : Option Nat)
  | capacity
  | debug (side : Side) (style : Tree.Style)
  | reset (side : Side) (dropHeld : Bool)
  | unknown
  deriving Repr

inductive Result (α : Type)
  | nothing
  | number (k : Nat)
  | offset (k : Int)
  | slot (index : Option Nat)
  | stored (index : Except α Nat)
  | item (value : α)
  | text (text : String)

structure Session (α : Type) (n : Nat) where
  depot : Depot α n
  handles : NameTable Handle
  /-- The indices that were let go and not taken back, oldest first. -/
  released : List (Side × Nat)

namespace Session

def start : Session α n := ⟨empty, [], []⟩

def view (s : Session α n) : List (List Nat) :=
  [s.depot.first, s.depot.second].map fun p => [p.allocationCount, p.freeCount]

def unwritten? (s : Session α n) (name : String) : Option Unwritten :=
  match s.handles.find? name with
  | some (.unwritten u) => some u
  | _ => none

def block? (s : Session α n) (name : String) : Option Block :=
  match s.handles.find? name with
  | some (.written b) => some b
  | _ => none

def file (s : Session α n) (name : String) (handle : Handle) : Session α n :=
  let handles := s.handles.insert name handle
  match s.handles.find? name with
  | some old => { s with handles, depot := s.depot.dropHandle old }
  | none => { s with handles }

def forget (s : Session α n) (name : String) : Session α n :=
  { s with handles := s.handles.erase name }

def dropAll (s : Session α n) : Session α n :=
  { s with depot := s.handles.values.foldl dropHandle s.depot, handles := [] }

def releaseAll (s : Session α n) : Session α n :=
  let indices := s.handles.values.filterMap fun
    | .written b => some (b.home, b.index)
    | .unwritten _ => none
  { s with released := s.released ++ indices, handles := [] }

abbrev Reply (α : Type) (n : Nat) := Except Refusal (Effect (Result α) (Session α n))

def alloc (s : Session α n) (name : Option String) (side : Side) : Reply α n := do
  let name ← need .missingName name
  match s.depot.alloc side with
  | none => return .quiet (.slot none) s
  | some (u, depot) =>
    return .quiet (.slot (some u.index)) ({ s with depot }.file name (.unwritten u))

def allocWith (s : Session α n) (name : Option String) (side : Side) (item : Option α) :
    Reply α n := do
  let name ← need .missingName name
  let item ← need .badItem item
  match s.depot.allocWith side item with
  | .error item => return .quiet (.stored (.error item)) s
  | .ok (b, depot) =>
    return .quiet (.stored (.ok b.index)) ({ s with depot }.file name (.written b))

def write (s : Session α n) (name : Option String) (item : Option α) : Reply α n := do
  let name ← need .missingName name
  let item ← need .badItem item
  match s.handles.find? name with
  | none => .error .noSuchBlock
  | some (.written _) => .error .alreadyWritten
  | some (.unwritten u) =>
    let (b, depot) := s.depot.write u item
    return .quiet (.number b.index)
      { s with depot, handles := s.handles.insert name (.written b) }

def rawWrite (s : Session α n) (name : Option String) (item : Option α) : Reply α n := do
  let item ← need .badItem item
  let name ← need .missingName name
  let u ← need .noSuchUnwrittenBlock (s.unwritten? name)
  let depot := s.depot.writeRaw u item
  let value ← need .noSuchUnwrittenBlock (depot.readRaw u)
  return .quiet (.item value) { s with depot }

def get (s : Session α n) (name : Option String) : Reply α n := do
  let name ← need .missingName name
  let b ← need .noSuchBlock (s.block? name)
  let value ← need .noSuchBlock (s.depot.read b)
  return .quiet (.item value) s

def set (s : Session α n) (name : Option String) (item : Option α) : Reply α n := do
  let item ← need .badItem item
  let name ← need .missingName name
  let b ← need .noSuchBlock (s.block? name)
  let old ← need .noSuchBlock (s.depot.read b)
  return .quiet (.item old) { s with depot := s.depot.store b item }

def debugBlock [Item α] (s : Session α n) (name : Option String) (style : Tree.Style) :
    Reply α n := do
  let name ← need .missingName name
  let b ← need .noSuchBlock (s.block? name)
  let tree ← need .noSuchBlock (s.depot.blockTree b)
  return .quiet (.text (tree.render style)) s

/-- Exchanges the items of two blocks; the handles stay with their slots. -/
def swap (s : Session α n) (name other : Option String) : Reply α n := do
  let name ← need .missingName name
  let other ← need .missingName other
  if name = other then .error .sameHandle
  let b ← need .noSuchBlock (s.block? name)
  let c ← need .noSuchBlock (s.block? other)
  let x ← need .noSuchBlock (s.depot.read b)
  let y ← need .noSuchBlock (s.depot.read c)
  return .quiet .nothing { s with depot := (s.depot.store b y).store c x }

def index (s : Session α n) (name : Option String) : Reply α n := do
  let name ← need .missingName name
  let handle ← need .noSuchBlock (s.handles.find? name)
  return .quiet (.number handle.index) s

def distance [Item α] (s : Session α n) (name other : Option String) : Reply α n := do
  let name ← need .missingName name
  let b ← need .noSuchBlock (s.block? name)
  let other ← need .missingName other
  let c ← need .noSuchBlock (s.block? other)
  if Item.zeroSized α then .error .zeroSizedItem
  if b.home ≠ c.home then .error .differentPools
  return .quiet (.offset (c.index - b.index)) s

def dealloc (s : Session α n) (name : Option String) (side : Side) : Reply α n := do
  let name ← need .missingName name
  let b ← need .noSuchBlock (s.block? name)
  let (result, depot) := s.depot.dealloc b side
  return ⟨result.map fun _ => .nothing, { s.forget name with depot }, []⟩

def drop (s : Session α n) (name : Option String) : Reply α n := do
  let name ← need .missingName name
  let handle ← need .noSuchBlock (s.handles.find? name)
  return .quiet .nothing { s.forget name with depot := s.depot.dropHandle handle }

def intoIndex (s : Session α n) (name : Option String) : Reply α n := do
  let name ← need .missingName name
  let b ← need .noSuchBlock (s.block? name)
  return .quiet (.number b.index)
    { s.forget name with released := s.released ++ [(b.home, b.index)] }

/-- An index that no block can have is the pool's to reject; one that was not let go is not offered
to it. -/
def fromIndex (s : Session α n) (name : Option String) (side : Side) (index : Option Nat) :
    Reply α n := do
  let name ← need .missingName name
  let i ← need .missingNumber index
  if i < n ∧ (side, i) ∉ s.released then .error .indexNotReleased
  match s.depot.reclaim side i with
  | .error fault => return .fault fault s
  | .ok b =>
    let value ← need .noSuchBlock (s.depot.read b)
    let s := { s with released := s.released.erase (side, i) }.file name (.written b)
    return .quiet (.item value) s

/-- A reset needs that no handle is alive, so all of them go first. -/
def reset (s : Session α n) (side : Side) (dropHeld : Bool) : Effect (Result α) (Session α n) :=
  let s := if dropHeld then s.dropAll else s.releaseAll
  let depot := s.depot.reset side
  let released := s.released.filter fun entry => entry.1 != side
  ⟨.ok .nothing, { s with depot := depot.value, released }, depot.events⟩

def perform [Item α] (s : Session α n) : Step α → Reply α n
  | .alloc name side => s.alloc name side
  | .allocWith name side item => s.allocWith name side item
  | .write name item => s.write name item
  | .rawWrite name item => s.rawWrite name item
  | .get name => s.get name
  | .set name item => s.set name item
  | .debugBlock name style => s.debugBlock name style
  | .swap name other => s.swap name other
  | .index name => s.index name
  | .distance name other => s.distance name other
  | .dealloc name side => s.dealloc name side
  | .drop name => s.drop name
  | .dropAll => .ok (.quiet (.number s.handles.length) s.dropAll)
  | .intoIndex name => s.intoIndex name
  | .fromIndex name side index => s.fromIndex name side index
  | .capacity => .ok (.quiet (.number n) s)
  | .debug side style => .ok (.quiet (.text ((s.depot.pool side).tree.render style)) s)
  | .reset side dropHeld => .ok (s.reset side dropHeld)
  | .unknown => .error .unknownStep

def step [Item α] (i : Step α) (s : Session α n) :
    Answer (Result α) (List (List Nat)) × Session α n :=
  Nonblocking.Session.answer view s (s.perform i)

def run [Item α] (n : Nat) (steps : List (Step α)) :
    List (Answer (Result α) (List (List Nat))) :=
  (Nonblocking.Session.run step steps (start : Session α n)).1

end Session

end Depot

end Nonblocking
