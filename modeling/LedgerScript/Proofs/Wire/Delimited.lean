import LedgerScript.Proofs.Wire.ReadBack

namespace LedgerScript

namespace Decoder

variable {α β : Type} {d : Decoder α} {f : α → Decoder β}

/-- A decoder that succeeds has taken at least `n` bytes. -/
def Takes (n : Nat) (d : Decoder α) : Prop :=
  ∀ ⦃input x rest⦄, d input = .ok x rest → rest.length + n ≤ input.length

/-- The decoder fails for want of bytes, and says that it needs more than there are. -/
def RunsOut (d : Decoder α) (input : Bytes) : Prop :=
  ∃ needed remaining left, remaining < needed ∧
    d input = .error (.truncated needed remaining) left

/-- A decoder that succeeds has taken bytes off the front that it takes off any input which begins
with them, and it runs out of bytes on every proper beginning of them. -/
def Delimits (d : Decoder α) : Prop :=
  ∀ ⦃input x rest⦄, d input = .ok x rest → ∃ taken, input = taken ++ rest ∧ d.Reads taken x ∧
    ∀ front back, taken = front ++ back → back ≠ [] → d.RunsOut front

theorem bind_eq_ok_iff {input : Bytes} {y : β} {rest : Bytes} :
    (d >>= f) input = .ok y rest ↔ ∃ x mid, d input = .ok x mid ∧ f x mid = .ok y rest := by
  simp only [Bind.bind, EStateM.bind]
  cases d input with
  | ok x mid =>
    constructor
    · intro h
      exact ⟨x, mid, rfl, h⟩
    · rintro ⟨_, _, same, h⟩
      cases same
      exact h
  | error e mid => simp

theorem whole_eq_ok_iff {input : Bytes} {x : α} :
    d.whole input = .ok x ↔ d input = .ok x [] := by
  unfold whole
  split
  · next e rest failed => simp [failed]
  · next y ok => simp [ok]
  · next y rest some ok => simpa [ok] using fun _ => some

theorem take_eq_ok_iff {n : Nat} {input x rest : Bytes} :
    Decoder.take n input = .ok x rest ↔ input = x ++ rest ∧ x.length = n := by
  constructor
  · intro ok
    unfold Decoder.take at ok
    split at ok
    · next enough =>
      cases ok
      exact ⟨(List.take_append_drop n input).symm, List.length_take_of_le enough⟩
    · cases ok
  · rintro ⟨rfl, rfl⟩
    exact take_append x rest

/-- Two byte strings in a row are cut in the second, or before the end of the first. -/
theorem cut_cases {a b front back : Bytes} (split : a ++ b = front ++ back) (some : back ≠ []) :
    (∃ c, front = a ++ c ∧ b = c ++ back) ∨ ∃ c, a = front ++ c ∧ c ≠ [] := by
  rcases List.append_eq_append_iff.mp split with inSecond | ⟨c, inFirst, rfl⟩
  · exact .inl inSecond
  · by_cases empty : c = []
    · subst empty
      exact .inl ⟨[], by simpa using inFirst.symm, rfl⟩
    · exact .inr ⟨c, inFirst, empty⟩

namespace Takes

theorem mono {m n : Nat} (h : d.Takes n) (le : m ≤ n) : d.Takes m := by
  intro input x rest ok
  have := h ok
  omega

theorem pure (x : α) : Takes 0 (Pure.pure x : Decoder α) := by
  intro input y rest ok
  cases ok
  exact Nat.le_refl _

theorem throw (n : Nat) (e : Error) : Takes n (MonadExcept.throw e : Decoder α) := by
  intro input x rest ok
  cases ok

theorem bind {m n : Nat} (first : d.Takes m) (second : ∀ x, (f x).Takes n) :
    (d >>= f).Takes (m + n) := by
  intro input y rest ok
  obtain ⟨x, mid, hd, hf⟩ := bind_eq_ok_iff.mp ok
  have := first hd
  have := second x hf
  omega

/-- A last step that only computes takes nothing. -/
theorem map {n : Nat} {g : α → β} (first : d.Takes n) :
    (d >>= fun x => Pure.pure (g x)).Takes n :=
  first.bind fun x => pure (g x)

theorem ite {n : Nat} {p : Prop} [Decidable p] {a b : Decoder α} (yes : a.Takes n)
    (no : b.Takes n) : (if p then a else b).Takes n := by
  split
  · exact yes
  · exact no

theorem take (n : Nat) : (Decoder.take n).Takes n := by
  intro input x rest ok
  obtain ⟨rfl, rfl⟩ := take_eq_ok_iff.mp ok
  rw [List.length_append]
  omega

theorem byte : Decoder.byte.Takes 1 := by
  intro input x rest ok
  cases input with
  | nil => cases ok
  | cons b input =>
    cases ok
    exact Nat.le_refl _

theorem times {k : Nat} (each : d.Takes k) (n : Nat) : (Decoder.times n d).Takes (n * k) := by
  induction n with
  | zero => exact (pure []).mono (Nat.le_of_eq (Nat.zero_mul k))
  | succ n ih =>
    rw [Nat.succ_mul, Nat.add_comm]
    exact each.bind fun x => ih.map

end Takes

namespace RunsOut

theorem bind {input : Bytes} (h : d.RunsOut input) : (d >>= f).RunsOut input := by
  obtain ⟨needed, remaining, left, lt, error⟩ := h
  refine ⟨needed, remaining, left, lt, ?_⟩
  simp only [Bind.bind, EStateM.bind, error]

theorem bind_of_ok {input mid : Bytes} {x : α} (ok : d input = .ok x mid)
    (h : (f x).RunsOut mid) : (d >>= f).RunsOut input := by
  obtain ⟨needed, remaining, left, lt, error⟩ := h
  refine ⟨needed, remaining, left, lt, ?_⟩
  simp only [Bind.bind, EStateM.bind, ok, error]

theorem whole {input : Bytes} (h : d.RunsOut input) :
    ∃ needed remaining, remaining < needed ∧
      d.whole input = .error (.truncated needed remaining) := by
  obtain ⟨needed, remaining, left, lt, error⟩ := h
  exact ⟨needed, remaining, lt, by simp only [Decoder.whole, error]⟩

end RunsOut

/-- What a decoder leaves over is an error of its own. -/
theorem Reads.whole_append {taken more : Bytes} {x : α} (h : d.Reads taken x) (some : more ≠ []) :
    d.whole (taken ++ more) = .error (.trailing more.length) := by
  cases more with
  | nil => exact absurd rfl some
  | cons b more => simp only [Decoder.whole, h (b :: more)]

namespace Delimits

theorem takes (h : d.Delimits) : d.Takes 0 := by
  intro input x rest ok
  obtain ⟨taken, rfl, -, -⟩ := h ok
  rw [List.length_append]
  omega

theorem pure (x : α) : Delimits (Pure.pure x : Decoder α) := by
  intro input y rest ok
  cases ok
  refine ⟨[], rfl, Reads.pure x, fun front back empty some => ?_⟩
  exact absurd (List.append_eq_nil_iff.mp empty.symm).2 some

theorem throw (e : Error) : Delimits (MonadExcept.throw e : Decoder α) := by
  intro input x rest ok
  cases ok

theorem ite {p : Prop} [Decidable p] {a b : Decoder α} (yes : a.Delimits) (no : b.Delimits) :
    Delimits (if p then a else b) := by
  split
  · exact yes
  · exact no

theorem bind (first : d.Delimits) (second : ∀ x, (f x).Delimits) : (d >>= f).Delimits := by
  intro input y rest ok
  obtain ⟨x, mid, hd, hf⟩ := bind_eq_ok_iff.mp ok
  obtain ⟨a, rfl, readsFirst, stopsFirst⟩ := first hd
  obtain ⟨b, rfl, readsSecond, stopsSecond⟩ := second x hf
  refine ⟨a ++ b, (List.append_assoc a b rest).symm, readsFirst.bind readsSecond, ?_⟩
  intro front back split some
  rcases cut_cases split some with ⟨c, rfl, remains⟩ | ⟨c, inFirst, cut⟩
  · exact RunsOut.bind_of_ok (readsFirst c) (stopsSecond c back remains some)
  · exact (stopsFirst front c inFirst cut).bind

theorem map {g : α → β} (first : d.Delimits) : (d >>= fun x => Pure.pure (g x)).Delimits :=
  first.bind fun x => pure (g x)

/-- A decoder that takes so many bytes, neither more nor less. -/
theorem of_length {n : Nat}
    (exact : ∀ ⦃input x rest⦄, d input = .ok x rest →
      ∃ taken, input = taken ++ rest ∧ d.Reads taken x ∧ taken.length = n)
    (short : ∀ input, input.length < n → d.RunsOut input) : d.Delimits := by
  intro input x rest ok
  obtain ⟨taken, rfl, reads, length⟩ := exact ok
  refine ⟨taken, rfl, reads, ?_⟩
  rintro front back rfl some
  have := List.length_pos_iff.mpr some
  rw [List.length_append] at length
  exact short front (by omega)

theorem take (n : Nat) : (Decoder.take n).Delimits := by
  apply of_length
  · intro input x rest ok
    obtain ⟨rfl, length⟩ := take_eq_ok_iff.mp ok
    exact ⟨x, rfl, length ▸ Reads.take x, length⟩
  · intro input lt
    exact ⟨n, input.length, input, lt, take_of_lt lt⟩

theorem byte : Decoder.byte.Delimits := by
  apply of_length
  · intro input x rest ok
    cases input with
    | nil => cases ok
    | cons b input =>
      cases ok
      exact ⟨[x], rfl, fun rest => rfl, rfl⟩
  · intro input lt
    obtain rfl : input = [] := List.length_eq_zero_iff.mp (Nat.lt_one_iff.mp lt)
    exact ⟨1, 0, [], Nat.one_pos, rfl⟩

theorem natLE (width : Nat) : (Decoder.natLE width).Delimits := (take width).map

theorem times (each : d.Delimits) (n : Nat) : (Decoder.times n d).Delimits := by
  induction n with
  | zero => exact pure []
  | succ n ih => exact each.bind fun x => ih.map

theorem sequence {ds : List (Decoder α)} (each : ∀ d ∈ ds, d.Delimits) :
    (Decoder.sequence ds).Delimits := by
  induction ds with
  | nil => exact pure []
  | cons d ds ih =>
    have first := each d List.mem_cons_self
    have others := ih fun e member => each e (List.mem_cons_of_mem d member)
    exact first.bind fun x => others.map

end Delimits
end Decoder

open Decoder (Takes Delimits RunsOut bind_eq_ok_iff cut_cases)

/-! ## Compact sizes, and what they count -/

namespace CompactSize

theorem read_delimits : read.Delimits :=
  Delimits.byte.bind fun _ =>
    Delimits.ite (.natLE 2) (Delimits.ite (.natLE 4) (Delimits.ite (.natLE 8) (.pure _)))

theorem read_takes : read.Takes 1 :=
  Takes.byte.bind fun _ => Takes.ite (Delimits.natLE 2).takes
    (Takes.ite (Delimits.natLE 4).takes (Takes.ite (Delimits.natLE 8).takes (.pure _)))

theorem readCount_apply {input mid : Bytes} {n : Nat} (h : read input = .ok n mid) :
    readCount input =
      if n ≤ mid.length then .ok n mid else .error (.truncated n mid.length) mid := by
  simp only [readCount, Bind.bind, EStateM.bind, h]
  change (if n ≤ mid.length then pure n else throw (.truncated n mid.length) : Decoder Nat) mid = _
  split <;> rfl

theorem readCount_eq_ok_iff {input rest : Bytes} {n : Nat} :
    readCount input = .ok n rest ↔ read input = .ok n rest ∧ n ≤ rest.length := by
  constructor
  · intro ok
    obtain ⟨m, mid, hread, hcheck⟩ := bind_eq_ok_iff.mp ok
    rw [readCount_apply hread] at ok
    split at ok
    · next enough =>
      cases ok
      exact ⟨hread, enough⟩
    · cases ok
  · rintro ⟨hread, enough⟩
    rw [readCount_apply hread, if_pos enough]

theorem readCount_takes : readCount.Takes 1 := by
  intro input n rest ok
  exact read_takes (readCount_eq_ok_iff.mp ok).1

/-- A count that is refused for want of bytes would have run out of them: what it counts takes a
byte each at least. -/
theorem delimits_counted {β : Type} {f : Nat → Decoder β} (body : ∀ n, (f n).Delimits)
    (each : ∀ n, (f n).Takes n) : (readCount >>= f).Delimits := by
  intro input y rest ok
  obtain ⟨n, mid, hcount, hbody⟩ := bind_eq_ok_iff.mp ok
  obtain ⟨hread, -⟩ := readCount_eq_ok_iff.mp hcount
  obtain ⟨a, rfl, readsCount, stopsCount⟩ := read_delimits hread
  obtain ⟨b, rfl, readsBody, stopsBody⟩ := body n hbody
  have enough : n ≤ b.length := by simpa using each n (readsBody [])
  refine ⟨a ++ b, (List.append_assoc a b rest).symm, ?_, ?_⟩
  · intro more
    have fits : n ≤ (b ++ more).length := by
      rw [List.length_append]
      omega
    rw [List.append_assoc]
    exact bind_eq_ok_iff.mpr
      ⟨n, b ++ more, readCount_eq_ok_iff.mpr ⟨readsCount _, fits⟩, readsBody more⟩
  · intro front back split some
    rcases cut_cases split some with ⟨c, rfl, remains⟩ | ⟨c, inCount, cut⟩
    · by_cases fits : n ≤ c.length
      · exact RunsOut.bind_of_ok (readCount_eq_ok_iff.mpr ⟨readsCount c, fits⟩)
          (stopsBody c back remains some)
      · refine RunsOut.bind ⟨n, c.length, c, by omega, ?_⟩
        rw [readCount_apply (readsCount c), if_neg fits]
    · exact (stopsCount front c inCount cut).bind.bind

theorem readBytes_delimits : readBytes.Delimits := delimits_counted .take .take

theorem readBytes_takes : readBytes.Takes 1 :=
  readCount_takes.bind fun n => (Delimits.take n).takes

end CompactSize

/-! ## Inputs, outputs and integers -/

theorem Hash.append_of_read {input rest : Bytes} {hash : Hash}
    (ok : Hash.read input = .ok hash rest) : input = hash.bytes ++ rest := by
  unfold read at ok
  split at ok
  · cases ok
    exact (List.take_append_drop 32 input).symm
  · cases ok

theorem Hash.read_takes : Hash.read.Takes 32 := by
  intro input hash rest ok
  have length := hash.length_eq
  rw [append_of_read ok, List.length_append]
  omega

theorem Hash.read_delimits : Hash.read.Delimits := by
  apply Delimits.of_length
  · intro input hash rest ok
    exact ⟨hash.bytes, append_of_read ok, read_append hash, hash.length_eq⟩
  · intro input lt
    exact ⟨32, input.length, input, lt, by rw [read, dif_neg (Nat.not_le.mpr lt)]⟩

theorem readWord32_delimits : readWord32.Delimits := (Delimits.natLE 4).map

theorem readWord64_delimits : readWord64.Delimits := (Delimits.natLE 8).map

theorem Input.read_delimits : Input.read.Delimits :=
  Hash.read_delimits.bind fun _ => readWord32_delimits.bind fun _ =>
    CompactSize.readBytes_delimits.bind fun _ => readWord32_delimits.map

theorem Input.read_takes : Input.read.Takes 1 := by
  have all : Input.read.Takes (32 + 0) := Hash.read_takes.bind fun _ =>
    (readWord32_delimits.bind fun _ => CompactSize.readBytes_delimits.bind fun _ =>
      readWord32_delimits.map).takes
  exact all.mono (by decide)

theorem Output.read_delimits : Output.read.Delimits :=
  readWord64_delimits.bind fun _ => CompactSize.readBytes_delimits.map

theorem Output.read_takes : Output.read.Takes 1 := by
  have amount : readWord64.Takes 8 := (Takes.take 8).map.map
  have all : Output.read.Takes (8 + 0) :=
    amount.bind fun _ => CompactSize.readBytes_delimits.map.takes
  exact all.mono (by decide)

namespace IntegerFormat

variable (format : IntegerFormat) (field : String)

theorem read_delimits : (format.read field).Delimits :=
  Delimits.ite ((Delimits.take format.width).bind fun _ => Delimits.ite (.pure _) (.throw _))
    (.throw _)

theorem read_takes : (format.read field).Takes format.width :=
  Takes.ite ((Takes.take format.width).bind fun _ => Takes.ite (.pure _) (.throw 0 _))
    (.throw _ _)

end IntegerFormat
end LedgerScript
