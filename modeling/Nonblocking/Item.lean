import Nonblocking.Text.CharLiteral
import Nonblocking.Text.Tree

/-! # Items

The containers hold items of any one type. A session needs to know how an item is shown, whether
items can be counted up from a number, and whether they take any room. -/
namespace Nonblocking

open Text (Tree charLiteral)

class Item (α : Type) where
  tree : α → Tree
  ofNumber? : Option (UInt64 → α)
  /-- All items of the type occupy one address. -/
  zeroSized : Bool

structure Frame where
  seq : UInt64
  check : Int64
  payload : Vector UInt64 6
  deriving DecidableEq, Repr

instance : Item UInt64 := ⟨fun v => .ofNat v.toNat, some id, false⟩

instance : Item UInt8 := ⟨fun v => .ofNat v.toNat, none, false⟩

instance : Item Int64 := ⟨fun v => .leaf (toString v.toInt), none, false⟩

instance : Item Char := ⟨fun c => .leaf (charLiteral c), none, false⟩

instance : Item (Option UInt8) := ⟨fun v => .ofOption (v.map Item.tree), none, false⟩

instance : Item (Vector UInt8 4) := ⟨fun v => .sequence (v.toList.map Item.tree), none, false⟩

instance : Item Unit := ⟨fun _ => .leaf "()", none, true⟩

instance : Item Frame where
  tree f := .record "Frame"
    [("seq", Item.tree f.seq), ("check", Item.tree f.check),
      ("payload", .sequence (f.payload.toList.map Item.tree))]
  ofNumber? := none
  zeroSized := false

inductive ItemKind
  | u64 | u8 | i64 | char | opt | bytes4 | unit | frame
  deriving DecidableEq, Repr

namespace ItemKind

def ofName? : String → Option ItemKind
  | "u64" => some .u64
  | "u8" => some .u8
  | "i64" => some .i64
  | "char" => some .char
  | "opt" => some .opt
  | "bytes4" => some .bytes4
  | "unit" => some .unit
  | "frame" => some .frame
  | _ => none

abbrev Carrier : ItemKind → Type
  | u64 => UInt64
  | u8 => UInt8
  | i64 => Int64
  | char => Char
  | opt => Option UInt8
  | bytes4 => Vector UInt8 4
  | unit => Unit
  | frame => Frame

instance : (kind : ItemKind) → Item kind.Carrier
  | u64 => inferInstanceAs (Item UInt64)
  | u8 => inferInstanceAs (Item UInt8)
  | i64 => inferInstanceAs (Item Int64)
  | char => inferInstanceAs (Item Char)
  | opt => inferInstanceAs (Item (Option UInt8))
  | bytes4 => inferInstanceAs (Item (Vector UInt8 4))
  | unit => inferInstanceAs (Item Unit)
  | frame => inferInstanceAs (Item Frame)

end ItemKind

end Nonblocking
