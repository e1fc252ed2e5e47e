import Skyline.ELF.Impl.Load
import Skyline.VMM.Translation

/-!
This module contains the connection of the loaders to the page tables.
-/

namespace ELF

open VMM (mmRead has vmmPsBit)

def PageSize.bytes (size : PageSize) : Nat :=
  match size with
  | .small => 4096
  | .huge => 2097152
  | .giant => 1073741824

def infoOf (page : Option Page) : VMM.PageInfo :=
  match page with
  | none => ⟨0, 0, 0#64⟩
  | some ⟨frame, size, flags⟩ =>
    ⟨frame.toNat * 4096, size.bytes, flags ||| if size = .small then 0#64 else vmmPsBit⟩

def Table.Shows (t : Table) (s : VMM.State) (pm : Nat) : Prop :=
  ∀ p < tablePages, VMM.getPageInfo s pm (p * 4096) = infoOf (t p)

structure Call where
  huge : Bool
  p : Nat
  frame : BitVec 40
  flags : BitVec 64
  lt : p < tablePages
  read : has flags mmRead = true

def Call.exec (pm : Nat) (s : VMM.State) (c : Call) : Except VMM.Fault VMM.State :=
  (match c.huge with | true => VMM.map2M | false => VMM.map4K) s pm (c.p * 4096)
    (c.frame.toNat * 4096) c.flags

def Table.map (t : Table) (c : Call) : Table :=
  (match c.huge with | true => t.map2M | false => t.map4K) c.p c.frame c.flags

variable {t : Table} {s s' : VMM.State} {pm : Nat}

theorem Call.walk (c : Call) (k w : Nat)
    : (VMM.leafEntry k (c.frame.toNat * 4096) c.flags).walk k w =
      ⟨c.frame.toNat / 512 ^ k * 512 ^ k * 4096, VMM.span k,
        c.flags &&& VMM.pteKeep ||| if k = 0 then 0#64 else vmmPsBit⟩ := by
  have hbit : (if k = 0 then 0#64 else vmmPsBit) &&& mmRead = 0#64 := by
    split <;> decide
  unfold VMM.leafEntry
  dsimp only
  rw [VMM.has_leafFlags _ hbit, if_pos c.read, VMM.Entry.walk,
    Nat.mod_eq_of_lt (by omega), VMM.span,
    Nat.mul_comm 4096, Nat.mul_div_mul_right _ _ (by omega), Nat.mul_assoc]

theorem Table.Shows.map (h : t.Shows s pm) (c : Call) (hrun : c.exec pm s = .ok s')
    : (t.map c).Shows s' pm := by
  have hwalk := c.walk
  obtain ⟨huge, p, frame, flags, hp, hread⟩ := c
  have hmod := Nat.mod_eq_of_lt hp
  have hlt : p * 4096 < 2 ^ 48 := Nat.mul_lt_mul_of_pos_right hp (by omega)
  intro q hq
  cases huge with
  | false =>
    rw [VMM.getPageInfo_mapPage (by omega) hlt hq hrun, Nat.mul_div_cancel _ (by omega), hwalk]
    simp only [Table.map, Table.map4K, hmod, Nat.pow_zero, Nat.div_one, Nat.mul_one]
    split
    . rfl
    . exact h q hq
  | true =>
    have haligned : (frame / 512 * 512).toNat = frame.toNat / 512 * 512 := by
      rw [BitVec.toNat_mul, BitVec.toNat_udiv]
      have hle := Nat.div_mul_le_self frame.toNat 512
      exact Nat.mod_eq_of_lt (Nat.lt_of_le_of_lt hle frame.isLt)
    rw [VMM.getPageInfo_mapPage (by omega) hlt hq hrun, Nat.mul_div_cancel _ (by omega), hwalk]
    simp only [Table.map, Table.map2M, hmod, Nat.pow_one, ← haligned]
    split
    . rfl
    . exact h q hq

def Call.bytes (c : Call) : Nat :=
  if c.huge then 2097152 else 4096

/--
No call is for a page inside a larger one.
-/
def Table.Clear (t : Table) : List Call → Prop
  | [] => True
  | c :: calls => (∀ page ∈ t c.p, page.size.bytes ≤ c.bytes) ∧ (t.map c).Clear calls

def Call.Allocates (pm : Nat) (s : VMM.State) : List Call → Prop
  | [] => True
  | c :: calls => VMM.Allocates (c.exec pm s) ∧ ∀ s', c.exec pm s = .ok s' → Allocates pm s' calls

theorem Call.exec_ok (c : Call) (h : t.Shows s pm)
    (hclear : ∀ page ∈ t c.p, page.size.bytes ≤ c.bytes)
    (halloc : VMM.Allocates (c.exec pm s)) : ∃ s', c.exec pm s = .ok s' := by
  have hsize : (VMM.getPageInfo s pm (c.p * 4096)).size ≤ c.bytes := by
    rw [h c.p c.lt]
    cases hpage : t c.p with
    | none => exact Nat.zero_le _
    | some page => exact hclear page hpage
  obtain ⟨huge, p, frame, flags, hp, hread⟩ := c
  cases huge with
  | false => exact (VMM.mapPage_ok_iff (by omega) halloc).mpr hsize
  | true => exact (VMM.mapPage_ok_iff (by omega) halloc).mpr hsize

/--
As long as no call goes through a larger page, the page tables show what the loader's table does.
-/
theorem Table.Shows.calls {calls : List Call} (h : t.Shows s pm) (hclear : t.Clear calls)
    (halloc : Call.Allocates pm s calls)
    : ∃ s', calls.foldlM (Call.exec pm) s = .ok s' ∧ (calls.foldl Table.map t).Shows s' pm := by
  induction calls generalizing t s with
  | nil => exact ⟨s, rfl, h⟩
  | cons c calls ih =>
    obtain ⟨s1, hcall⟩ := c.exec_ok h hclear.1 halloc.1
    obtain ⟨s', hrun, hshows⟩ := ih (h.map c hcall) hclear.2 (halloc.2 s1 hcall)
    refine ⟨s', ?_, hshows⟩
    rw [List.foldlM_cons, hcall]
    exact hrun

instance instDecidableAllocates (pm : Nat) (s : VMM.State) (calls : List Call)
    : Decidable (Call.Allocates pm s calls) :=
  match calls with
  | [] => .isTrue trivial
  | c :: calls =>
    have := fun s' => instDecidableAllocates pm s' calls
    inferInstanceAs (Decidable (VMM.Allocates (c.exec pm s)
      ∧ ∀ s', c.exec pm s = .ok s' → Call.Allocates pm s' calls))

instance instDecidableClear (t : Table) (calls : List Call) : Decidable (t.Clear calls) :=
  match calls with
  | [] => .isTrue trivial
  | c :: calls =>
    have := instDecidableClear (t.map c) calls
    inferInstanceAs (Decidable
      ((∀ page ∈ t c.p, page.size.bytes ≤ c.bytes) ∧ (t.map c).Clear calls))

/--
The kernel page map before `VMM::Init` maps anything in it.
-/
def initState : VMM.State :=
  { VMM.bootState with
    pagemap := fun a => if a = 0x4000 then { VMM.Pagemap.empty with toplvl := 0x5000 } else .empty
  }

def noPages : Table :=
  fun _ => none

def twoSizes : List Call := [
  ⟨true, 1024, 2048, 7, by decide, by decide⟩,
  ⟨false, 3, 5, 7, by decide, by decide⟩,
  ⟨true, 1025, 2560, 7, by decide, by decide⟩]

theorem Table.Shows.calls_twoSizes
    : ∃ s', twoSizes.foldlM (Call.exec 0x4000) initState = .ok s'
      ∧ Table.Shows (twoSizes.foldl .map noPages) s' 0x4000 :=
  Table.Shows.calls (t := noPages) (fun _ _ => rfl) (by decide +kernel) (by decide +kernel)

end ELF
