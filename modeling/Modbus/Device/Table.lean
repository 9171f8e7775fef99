import Std.Data.ExtTreeMap

/-! The cells of one kind that a device has, by address. Only mapped addresses have a cell, and two
tables with the same cells are equal. -/
namespace Modbus.Device

structure Table (α : Type) where
  cells : Std.ExtTreeMap UInt16 α

namespace Table

def empty : Table α := ⟨∅⟩

instance : Inhabited (Table α) := ⟨empty⟩

def get? (t : Table α) (address : UInt16) : Option α := t.cells[address]?

/-- Also maps the address. -/
def set (t : Table α) (address : UInt16) (value : α) : Table α := ⟨t.cells.insert address value⟩

/-- Maps `count` addresses from `start` on, past the last one from the first on. Cells that are already
mapped keep their values. -/
def map (t : Table α) (start count : UInt16) (value : α) : Table α :=
  ⟨(List.range count.toNat).foldl (fun cells i => cells.insertIfNew (start + .ofNat i) value) t.cells⟩

/-- The cell at an address that may lie past the last one. -/
def cell? (t : Table α) (address : Nat) : Option α :=
  if address < 0x10000 then t.get? (.ofNat address) else none

/-- The values of `count` cells in address order, if all of them are mapped. -/
def span? (t : Table α) (address count : Nat) : Option (List α) :=
  (List.range' address count).mapM t.cell?

def store (t : Table α) (address : UInt16) : List α → Table α
  | [] => t
  | value :: rest => (t.set address value).store (address + 1) rest

@[simp] theorem get?_empty (address : UInt16) : (empty : Table α).get? address = none := by
  simp [get?, empty]

theorem get?_set (t : Table α) (a b : UInt16) (value : α) :
    (t.set a value).get? b = if a = b then some value else t.get? b := by
  simp only [get?, set, Std.ExtTreeMap.getElem?_insert, Std.LawfulEqCmp.compare_eq_iff_eq]

theorem ext {t u : Table α} (same : ∀ address, t.get? address = u.get? address) : t = u := by
  cases t with
  | mk cells =>
    cases u with
    | mk others => exact congrArg Table.mk (Std.ExtTreeMap.ext_getElem? same)

end Table

end Modbus.Device
