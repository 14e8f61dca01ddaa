import JobWatch.Hash.Sha256
import Mathlib.Algebra.Ring.Nat
import Mathlib.Data.List.Basic

/-!
# Short hashes are the first eight bytes

Two texts have the same short hash exactly if the first eight bytes of their hashes are the same.
-/

set_option autoImplicit false

namespace JobWatch

namespace Text

theorem hexChar_injective {d e : Nat} (hd : d < 16) (he : e < 16) (h : hexChar d = hexChar e) :
    d = e := by
  have all : ∀ d ∈ List.range 16, ∀ e ∈ List.range 16, hexChar d = hexChar e → d = e := by decide
  exact all d (List.mem_range.mpr hd) e (List.mem_range.mpr he) h

theorem hexPair_injective {b c : Nat} (hb : b < 256) (hc : c < 256) (h : hexPair b = hexPair c) :
    b = c := by
  simp only [hexPair, List.cons.injEq, and_true] at h
  have hhigh := hexChar_injective (Nat.mod_lt _ (by omega)) (Nat.mod_lt _ (by omega)) h.1
  have hlow := hexChar_injective (Nat.mod_lt _ (by omega)) (Nat.mod_lt _ (by omega)) h.2
  omega

theorem flatMap_hexPair_injective {bs cs : List Nat} (hbs : ∀ b ∈ bs, b < 256)
    (hcs : ∀ c ∈ cs, c < 256) (h : bs.flatMap hexPair = cs.flatMap hexPair) : bs = cs := by
  induction bs generalizing cs with
  | nil =>
    cases cs with
    | nil => rfl
    | cons c cs => simp [hexPair] at h
  | cons b bs ih =>
    cases cs with
    | nil => simp [hexPair] at h
    | cons c cs =>
      rw [List.forall_mem_cons] at hbs hcs
      obtain ⟨hpair, hrest⟩ := List.append_inj h rfl
      rw [hexPair_injective hbs.1 hcs.1 hpair, ih hbs.2 hcs.2 hrest]

end Text

namespace Sha256

theorem bytesOf_lt (n value : Nat) : ∀ b ∈ bytesOf n value, b < 256 := by
  induction n with
  | zero => simp [bytesOf]
  | succ n ih =>
    intro b hb
    rcases List.mem_cons.mp hb with rfl | hb
    · exact Nat.mod_lt _ (by omega)
    · exact ih b hb

theorem length_bytesOf (n value : Nat) : (bytesOf n value).length = n := by
  induction n with
  | zero => rfl
  | succ n ih => rw [bytesOf, List.length_cons, ih]

theorem mod_eq_of_bytesOf_eq (n : Nat) {v w : Nat} (h : bytesOf n v = bytesOf n w) :
    v % 256 ^ n = w % 256 ^ n := by
  induction n with
  | zero => simp [Nat.mod_one]
  | succ n ih =>
    obtain ⟨hfirst, hrest⟩ := List.cons.inj h
    have hdigit : v / 256 ^ n % 256 = w / 256 ^ n % 256 := hfirst
    rw [Nat.pow_succ, Nat.mod_mul, Nat.mod_mul, ih hrest, hdigit]

theorem bytesOf_word_injective {v w : UInt32} (h : bytesOf 4 v.toNat = bytesOf 4 w.toNat) :
    v = w := by
  have hmod := mod_eq_of_bytesOf_eq 4 h
  have hv : v.toNat < 256 ^ 4 := v.toNat_lt
  have hw : w.toNat < 256 ^ 4 := w.toNat_lt
  rw [Nat.mod_eq_of_lt hv, Nat.mod_eq_of_lt hw] at hmod
  exact UInt32.toNat_inj.mp hmod

def front (s : String) : UInt32 × UInt32 :=
  let state := hash (s.toUTF8.toList.map UInt8.toNat)
  (state.a, state.b)

def Collide (s t : String) : Prop := s ≠ t ∧ front s = front t

instance (s t : String) : Decidable (Collide s t) := inferInstanceAs (Decidable (_ ∧ _))

theorem shortHex_eq_iff (s t : String) : shortHex s = shortHex t ↔ front s = front t := by
  constructor
  · intro h
    have hbytes := Text.flatMap_hexPair_injective ?_ ?_ (String.ofList_inj.mp h)
    · obtain ⟨ha, hb⟩ := List.append_inj hbytes (by rw [length_bytesOf, length_bytesOf])
      exact Prod.ext (bytesOf_word_injective ha) (bytesOf_word_injective hb)
    · intro b hb
      exact (List.mem_append.mp hb).elim (bytesOf_lt _ _ b) (bytesOf_lt _ _ b)
    · intro b hb
      exact (List.mem_append.mp hb).elim (bytesOf_lt _ _ b) (bytesOf_lt _ _ b)
  · intro h
    obtain ⟨ha, hb⟩ := Prod.ext_iff.mp h
    simp only [front] at ha hb
    rw [shortHex, shortHex, ha, hb]

theorem shortHex_eq_iff_collide (s t : String) :
    shortHex s = shortHex t ↔ s = t ∨ Collide s t := by
  rw [shortHex_eq_iff, Collide]
  by_cases h : s = t <;> simp [h]

end Sha256

end JobWatch
