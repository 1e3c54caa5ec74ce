/-
SidechainVerifier.Proofs.Layouts — layouts that say where they end.

A preimage or a message is a run of fields without separators. It can be
read from left to right as long as each field is laid out self-delimiting
(`Bytes.SelfDelimiting`): whatever it is followed by, a reader can tell
where it stops and what it stands for. That holds of layouts of one width
(`Bytes.selfDelimiting_of_length`), and of a list behind its length
(`Bytes.SelfDelimiting.counted_append_inj`).
-/
import Mathlib.Algebra.Group.Nat.Defs
import SidechainVerifier.Chain.Certificate

namespace SidechainVerifier

namespace Bytes

/-! ## Numbers -/

/-- Reading back a layout gives the number modulo the layout's range. -/
theorem toNat_littleEndian_mod (width n : Nat) :
    toNat (littleEndian width n) = n % 256 ^ width := by
  induction width generalizing n with
  | zero => simp [littleEndian, toNat, Nat.mod_one]
  | succ width ih =>
    calc toNat (littleEndian (width + 1) n)
        = n % 256 + 256 * (n / 256 % 256 ^ width) := by simp [littleEndian, toNat, ih]
      _ = n % (256 * 256 ^ width) := Nat.mod_mul.symm
      _ = n % 256 ^ (width + 1) := by rw [Nat.pow_succ']

/-- Reading undoes writing for every number that fits the width. -/
theorem toNat_littleEndian {width n : Nat} (h : n < 256 ^ width) :
    toNat (littleEndian width n) = n := by
  rw [toNat_littleEndian_mod, Nat.mod_eq_of_lt h]

/-- Layouts of one width can be told apart when both numbers fit. -/
theorem littleEndian_inj {width m n : Nat} (hm : m < 256 ^ width) (hn : n < 256 ^ width)
    (h : littleEndian width m = littleEndian width n) : m = n := by
  rw [← toNat_littleEndian hm, ← toNat_littleEndian hn, h]

theorem littleEndian_uint64_inj {a b : UInt64}
    (h : littleEndian 8 a.toNat = littleEndian 8 b.toNat) : a = b :=
  UInt64.toNat_inj.mp (littleEndian_inj a.toNat_lt b.toNat_lt h)

theorem littleEndian_uint32_inj {a b : UInt32}
    (h : littleEndian 4 a.toNat = littleEndian 4 b.toNat) : a = b :=
  UInt32.toNat_inj.mp (littleEndian_inj a.toNat_lt b.toNat_lt h)

/-! ## Layouts of one value -/

/-- Whatever comes after it, a value can be read off the front and parted from the rest. -/
def SelfDelimiting {α : Type} (layout : α → Bytes) : Prop :=
  ∀ ⦃a b : α⦄ ⦃x y : Bytes⦄, layout a ++ x = layout b ++ y → a = b ∧ x = y

variable {α : Type} {layout : α → Bytes}

theorem selfDelimiting_of_length (width : Nat) (hlength : ∀ a, (layout a).length = width)
    (hinj : ∀ {a b}, layout a = layout b → a = b) : SelfDelimiting layout := by
  intro a b x y h
  obtain ⟨hlayout, hxy⟩ := List.append_inj h (by rw [hlength, hlength])
  exact ⟨hinj hlayout, hxy⟩

namespace SelfDelimiting

theorem inj (h : SelfDelimiting layout) {a b : α} (hab : layout a = layout b) : a = b :=
  (h (congrArg (· ++ []) hab)).1

/-- Two values one after the other. -/
theorem append {β : Type} {other : β → Bytes} (h : SelfDelimiting layout)
    (hother : SelfDelimiting other) :
    SelfDelimiting (fun p : α × β => layout p.1 ++ other p.2) := by
  rintro ⟨a, b⟩ ⟨a', b'⟩ x y hxy
  simp only [List.append_assoc] at hxy
  obtain ⟨hfirst, hxy⟩ := h hxy
  obtain ⟨hsecond, hxy⟩ := hother hxy
  exact ⟨by rw [hfirst, hsecond], hxy⟩

/-- A value may be laid out as another one that determines it. -/
theorem comp {β : Type} (h : SelfDelimiting layout) {f : β → α}
    (hf : ∀ a b, f a = f b → a = b) : SelfDelimiting (fun b => layout (f b)) := by
  intro a b x y hxy
  obtain ⟨hab, hxy⟩ := h hxy
  exact ⟨hf a b hab, hxy⟩

end SelfDelimiting

theorem selfDelimiting_fixed (n : Nat) :
    SelfDelimiting (fun bytes : FixedBytes n => bytes.toList) :=
  selfDelimiting_of_length n (fun _ => Vector.length_toList) Vector.toList_inj.mp

theorem selfDelimiting_uint32 : SelfDelimiting (fun n : UInt32 => littleEndian 4 n.toNat) :=
  selfDelimiting_of_length 4 (fun _ => length_littleEndian 4 _) littleEndian_uint32_inj

theorem selfDelimiting_uint64 : SelfDelimiting (fun n : UInt64 => littleEndian 8 n.toNat) :=
  selfDelimiting_of_length 8 (fun _ => length_littleEndian 8 _) littleEndian_uint64_inj

/-! ## Lists -/

/-- Members can be cut out of a run by whoever knows their number. -/
theorem SelfDelimiting.flatMap_append_inj (h : SelfDelimiting layout) :
    ∀ {as bs : List α} {x y : Bytes}, as.length = bs.length →
      as.flatMap layout ++ x = bs.flatMap layout ++ y → as = bs ∧ x = y
  | [], [], _, _, _, hxy => ⟨rfl, hxy⟩
  | [], _ :: _, _, _, hlen, _ => by simp at hlen
  | _ :: _, [], _, _, hlen, _ => by simp at hlen
  | a :: as, b :: bs, x, y, hlen, hxy => by
      simp only [List.flatMap_cons, List.append_assoc] at hxy
      obtain ⟨hab, hxy⟩ := h hxy
      obtain ⟨hrest, hxy⟩ := h.flatMap_append_inj (by simpa using hlen) hxy
      exact ⟨by rw [hab, hrest], hxy⟩

/-- A list's length in front says how many members there are, as long as it fits. -/
theorem SelfDelimiting.counted_append_inj (h : SelfDelimiting layout) {as bs : List α}
    {x y : Bytes} (ha : as.length < 2 ^ 64) (hb : bs.length < 2 ^ 64)
    (hxy : counted layout as ++ x = counted layout bs ++ y) : as = bs ∧ x = y := by
  simp only [counted, List.append_assoc] at hxy
  obtain ⟨hcount, hxy⟩ := List.append_inj hxy (by simp)
  exact h.flatMap_append_inj (littleEndian_inj (by omega) (by omega) hcount) hxy

end Bytes

/-! ## The fields of chain records -/

theorem Hash.selfDelimiting : Bytes.SelfDelimiting (fun h : Hash => h.bytes.toList) :=
  (Bytes.selfDelimiting_fixed 32).comp (by rintro ⟨_⟩ ⟨_⟩ h; exact congrArg Hash.mk h)

theorem FieldElement.selfDelimiting :
    Bytes.SelfDelimiting (fun f : FieldElement => f.bytes.toList) :=
  (Bytes.selfDelimiting_fixed 32).comp (by rintro ⟨_⟩ ⟨_⟩ h; exact congrArg FieldElement.mk h)

theorem BackwardTransfer.selfDelimiting : Bytes.SelfDelimiting BackwardTransfer.bytes :=
  ((Bytes.selfDelimiting_fixed 20).append Bytes.selfDelimiting_uint64).comp
    (f := fun t : BackwardTransfer => (t.destination, t.amount))
    (by rintro ⟨_, _⟩ ⟨_, _⟩ h; simp_all)

end SidechainVerifier
