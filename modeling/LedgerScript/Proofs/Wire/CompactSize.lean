import LedgerScript.Proofs.Wire.NormalForm

namespace LedgerScript

namespace Decoder

variable {α : Type} {d : Decoder α} {a b r s : Bytes} {x y : α}

/-- One input does not begin with two things that the decoder reads. -/
theorem Reads.eq_of_append_eq (first : d.Reads a x) (second : d.Reads b y)
    (same : a ++ r = b ++ s) : a = b ∧ x = y := by
  have ends := first r
  rw [same, second s] at ends
  cases ends
  exact ⟨List.append_cancel_right same, rfl⟩

theorem natLE_reads {width : Nat} {u : Bytes} (length : u.length = width) :
    (natLE width).Reads u u.toNatLE := by
  subst length
  exact (Reads.take u).map

end Decoder

namespace CompactSize

variable {m n : Nat} {a b bytes : Bytes}

/-- Every form is read, though it may be longer than need be. -/
theorem Form.reads (h : Form n bytes) : read.Reads bytes n := by
  intro rest
  cases h with
  | one b small =>
    have written := read_encode b.toNat (Form.one b small).lt rest
    rwa [encode_byte small] at written
  | two u width => exact Decoder.natLE_reads width rest
  | four u width => exact Decoder.natLE_reads width rest
  | eight u width => exact Decoder.natLE_reads width rest

/-- **The forms of a number are all that is read as it.** -/
theorem read_eq_ok_iff {input rest : Bytes} :
    read input = .ok n rest ↔ ∃ taken, input = taken ++ rest ∧ Form n taken := by
  constructor
  · exact read_form
  · rintro ⟨taken, rfl, form⟩
    exact form.reads rest

theorem form_encode (small : n < UInt64.size) : Form n (encode n) := by
  obtain ⟨taken, split, form⟩ := read_eq_ok_iff.mp (read_encode n small [])
  rwa [List.append_cancel_right split]

/-- No form begins another, be it of the same number or not. -/
theorem Form.eq_of_begins (first : Form m a) (second : Form n b) (begins : a <+: b) :
    a = b ∧ m = n := by
  obtain ⟨r, same⟩ := begins
  rw [← List.append_nil b] at same
  exact first.reads.eq_of_append_eq second.reads same

/-- **Compact sizes are a code of shortest forms.** Every number below 2⁶⁴ is read back from its
written form, and nothing is taken of what follows. So none of these forms begins that of another
number. Whatever is read is such a number; no fewer bytes are taken for it than it is written in,
and if they are as many, they are its written form. -/
theorem encode_shortest :
    (∀ (n : UInt64) (rest : Bytes), read (encode n.toNat ++ rest) = .ok n.toNat rest) ∧
    (∀ m n : UInt64, encode m.toNat <+: encode n.toNat → m = n) ∧
    ∀ (input rest : Bytes) (value : Nat), read input = .ok value rest →
      ∃ (n : UInt64) (taken : Bytes), value = n.toNat ∧ input = taken ++ rest ∧
        (encode n.toNat).length ≤ taken.length ∧
        (taken.length = (encode n.toNat).length → taken = encode n.toNat) := by
  refine ⟨fun n => read_encode n.toNat n.toNat_lt, ?_, ?_⟩
  · intro m n begins
    have first := form_encode m.toNat_lt
    have second := form_encode n.toNat_lt
    exact UInt64.toNat_inj.mp (first.eq_of_begins second begins).2
  · intro input rest value ok
    obtain ⟨taken, split, form⟩ := read_eq_ok_iff.mp ok
    obtain ⟨enough, only⟩ := form.encode_noLonger
    have number : (UInt64.ofNat value).toNat = value := UInt64.toNat_ofNat_of_lt' form.lt
    refine ⟨UInt64.ofNat value, taken, number.symm, split, ?_, ?_⟩
    · rwa [number]
    · intro same
      rw [number] at same ⊢
      exact (only same.symm).symm

/-- The largest number; two whose forms begin alike; the largest that one byte can hold, read from
three; and the least that needs the three. -/
theorem encode_shortest_boundary :
    (∀ rest, read (encode 0xffffffffffffffff ++ rest) = .ok 0xffffffffffffffff rest) ∧
    ¬ encode 0xfd <+: encode 0xfdfd ∧
    (read [0xfd, 0xfc, 0, 7] = .ok 0xfc [7] ∧ (encode 0xfc).length < 3) ∧
    read [0xfd, 0xfd, 0, 7] = .ok 0xfd [7] ∧ [0xfd, 0xfd, 0] = encode 0xfd := by
  obtain ⟨back, apart, least⟩ := encode_shortest
  have long : read ([0xfd, 0xfc, 0] ++ [7]) = .ok 0xfc [7] := rfl
  have short : read ([0xfd, 0xfd, 0] ++ [7]) = .ok 0xfd [7] := rfl
  refine ⟨back 0xffffffffffffffff, ?_, ⟨long, ?_⟩, short, ?_⟩
  · intro begins
    exact absurd (apart 0xfd 0xfdfd begins) (by decide)
  · obtain ⟨n, taken, number, split, enough, only⟩ := least _ _ _ long
    rw [← number] at enough only
    obtain rfl := List.append_cancel_right split
    exact Nat.lt_of_le_of_ne enough fun same => absurd (only same.symm) (by decide)
  · obtain ⟨n, taken, number, split, -, only⟩ := least _ _ _ short
    rw [← number] at only
    obtain rfl := List.append_cancel_right split
    exact only rfl

end CompactSize
end LedgerScript
