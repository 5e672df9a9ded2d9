import LedgerScript.Proofs.Wire.Delimited

namespace LedgerScript

/-- The form is shorter than the bytes, or it is the bytes. -/
def Bytes.NoLonger (form bytes : Bytes) : Prop :=
  form.length ≤ bytes.length ∧ (form.length = bytes.length → form = bytes)

namespace Bytes.NoLonger

theorem refl (bytes : Bytes) : NoLonger bytes bytes := ⟨Nat.le_refl _, fun _ => rfl⟩

theorem of_lt {form bytes : Bytes} (h : form.length < bytes.length) : NoLonger form bytes :=
  ⟨Nat.le_of_lt h, fun same => absurd same (Nat.ne_of_lt h)⟩

/-- If two forms in a row are as long as the bytes, each is as long as its own. -/
theorem append {a b x y : Bytes} (first : NoLonger a x) (second : NoLonger b y) :
    NoLonger (a ++ b) (x ++ y) := by
  have le := Nat.add_le_add first.1 second.1
  simp only [NoLonger, List.length_append]
  refine ⟨le, fun same => ?_⟩
  have := first.1
  have := second.1
  rw [first.2 (by omega), second.2 (by omega)]

end Bytes.NoLonger

open Bytes (NoLonger)

namespace Decoder

variable {α β : Type} {d : Decoder α} {f : α → Decoder β} {V W : α → Bytes → Prop}

/-- Whatever was read has a form, of which `W` says how it is written, that reads back to the same
value and is no longer than what was taken. -/
def Renews (d : Decoder α) (W : α → Bytes → Prop) : Prop :=
  ∀ ⦃input x rest⦄, d input = .ok x rest → ∃ taken form,
    input = taken ++ rest ∧ W x form ∧ d.Reads form x ∧ form.NoLonger taken

namespace Renews

theorem pure {x : α} (h : W x []) : Renews (Pure.pure x) W := by
  intro input y rest ok
  cases ok
  exact ⟨[], [], rfl, h, Reads.pure x, .refl []⟩

theorem throw (e : Error) : Renews (MonadExcept.throw e) W := by
  intro input x rest ok
  cases ok

theorem mono (h : d.Renews V) (imp : ∀ x form, V x form → W x form) : d.Renews W := by
  intro input x rest ok
  obtain ⟨taken, form, split, written, reads, short⟩ := h ok
  exact ⟨taken, form, split, imp x form written, reads, short⟩

theorem bind {W : β → Bytes → Prop} (first : d.Renews V)
    (second : ∀ x u, V x u → (f x).Renews fun y v => W y (u ++ v)) : (d >>= f).Renews W := by
  intro input y rest ok
  obtain ⟨x, mid, hd, hf⟩ := bind_eq_ok_iff.mp ok
  obtain ⟨a, u, rfl, writtenFirst, readsFirst, shortFirst⟩ := first hd
  obtain ⟨b, v, rfl, written, readsSecond, shortSecond⟩ := second x u writtenFirst hf
  exact ⟨a ++ b, u ++ v, (List.append_assoc a b rest).symm, written,
    readsFirst.bind readsSecond, shortFirst.append shortSecond⟩

theorem map {W : β → Bytes → Prop} {g : α → β} (first : d.Renews fun x u => W (g x) u) :
    (d >>= fun x => Pure.pure (g x)).Renews W :=
  first.bind fun x u written => pure (by rwa [List.append_nil])

/-- What was taken is itself the form. -/
theorem of_exact (own : d.Delimits)
    (exact : ∀ ⦃input x rest⦄, d input = .ok x rest → ∃ form, W x form ∧ input = form ++ rest) :
    d.Renews W := by
  intro input x rest ok
  obtain ⟨taken, rfl, reads, -⟩ := own ok
  obtain ⟨form, written, same⟩ := exact ok
  cases List.append_cancel_right same
  exact ⟨taken, taken, rfl, written, reads, .refl taken⟩

theorem take (n : Nat) : (Decoder.take n).Renews fun x u => u = x ∧ x.length = n := by
  apply of_exact (Delimits.take n)
  intro input x rest ok
  obtain ⟨same, length⟩ := take_eq_ok_iff.mp ok
  exact ⟨x, ⟨rfl, length⟩, same⟩

/-- Forms one after another. -/
theorem times {L : List α → Bytes → Prop} (each : d.Renews W) (nil : L [] [])
    (cons : ∀ x xs u v, W x u → L xs v → L (x :: xs) (u ++ v)) (n : Nat) :
    (Decoder.times n d).Renews fun xs v => xs.length = n ∧ L xs v := by
  induction n with
  | zero => exact pure ⟨rfl, nil⟩
  | succ n ih =>
    apply each.bind
    intro x u first
    apply map
    apply ih.mono
    rintro xs v ⟨length, others⟩
    exact ⟨by rw [List.length_cons, length], cons x xs u v first others⟩

end Renews
end Decoder

open Decoder (Takes Renews Reads bind_eq_ok_iff take_eq_ok_iff)

namespace CompactSize

/-- The forms in which a reader accepts a number. -/
inductive Form : Nat → Bytes → Prop
  | one (b : UInt8) (small : b.toNat < 0xfd) : Form b.toNat [b]
  | two (u : Bytes) (width : u.length = 2) : Form u.toNatLE (0xfd :: u)
  | four (u : Bytes) (width : u.length = 4) : Form u.toNatLE (0xfe :: u)
  | eight (u : Bytes) (width : u.length = 8) : Form u.toNatLE (0xff :: u)

theorem encode_byte {b : UInt8} (small : b.toNat < 0xfd) : encode b.toNat = [b] := by
  rw [encode, if_pos small, UInt8.ofNat_toNat]

namespace Form

variable {n : Nat} {bytes : Bytes}

theorem lt (h : Form n bytes) : n < UInt64.size := by
  cases h with
  | one b small => exact Nat.lt_trans small (by decide)
  | two u width | four u width | eight u width =>
    have below := Bytes.toNatLE_lt u
    rw [width] at below
    exact Nat.lt_of_lt_of_le below (by decide)

/-- Of all forms of a number the written one is the only shortest. -/
theorem encode_noLonger (h : Form n bytes) : (encode n).NoLonger bytes := by
  have length := length_encode n
  cases h with
  | one b small =>
    rw [encode_byte small]
    exact .refl [b]
  | two u width =>
    have below := Bytes.toNatLE_lt u
    have spelt := Bytes.ofNatLE_toNatLE u
    rw [width] at below spelt
    simp only [Bytes.modulus] at below
    by_cases least : u.toNatLE < 0xfd
    · apply NoLonger.of_lt
      simp only [length, List.length_cons, width, if_pos least]
      decide
    · have same : encode u.toNatLE = 0xfd :: u := by
        rw [encode, if_neg least, if_pos (by omega), spelt]
      rw [same]
      exact .refl _
  | four u width =>
    have below := Bytes.toNatLE_lt u
    have spelt := Bytes.ofNatLE_toNatLE u
    rw [width] at below spelt
    simp only [Bytes.modulus] at below
    by_cases least : u.toNatLE ≤ 0xffff
    · apply NoLonger.of_lt
      simp only [length, List.length_cons, width, if_pos least]
      split <;> decide
    · have same : encode u.toNatLE = 0xfe :: u := by
        rw [encode, if_neg (by omega), if_neg least, if_pos (by omega), spelt]
      rw [same]
      exact .refl _
  | eight u width =>
    have spelt := Bytes.ofNatLE_toNatLE u
    rw [width] at spelt
    by_cases least : u.toNatLE ≤ 0xffffffff
    · apply NoLonger.of_lt
      simp only [length, List.length_cons, width, if_pos least]
      split
      · decide
      · split <;> decide
    · have same : encode u.toNatLE = 0xff :: u := by
        rw [encode, if_neg (by omega), if_neg (by omega), if_neg least, spelt]
      rw [same]
      exact .refl _

end Form

/-- What follows a mark is taken as it stands. -/
theorem natLE_form {width : Nat} {mark : UInt8} {input rest : Bytes} {n : Nat}
    (form : ∀ u, u.length = width → Form (Bytes.toNatLE u) (mark :: u))
    (ok : Decoder.natLE width input = .ok n rest) :
    ∃ taken, mark :: input = taken ++ rest ∧ Form n taken := by
  obtain ⟨u, mid, htake, hpure⟩ := bind_eq_ok_iff.mp ok
  cases hpure
  obtain ⟨rfl, length⟩ := take_eq_ok_iff.mp htake
  exact ⟨mark :: u, rfl, form u length⟩

theorem read_form {input rest : Bytes} {n : Nat} (ok : read input = .ok n rest) :
    ∃ taken, input = taken ++ rest ∧ Form n taken := by
  obtain ⟨first, mid, hbyte, hmore⟩ := bind_eq_ok_iff.mp ok
  cases input with
  | nil => cases hbyte
  | cons b input =>
    cases hbyte
    split at hmore
    · next mark => exact natLE_form (fun u width => mark ▸ .two u width) hmore
    · split at hmore
      · next mark => exact natLE_form (fun u width => mark ▸ .four u width) hmore
      · split at hmore
        · next mark => exact natLE_form (fun u width => mark ▸ .eight u width) hmore
        · next not2 not4 not8 =>
          cases hmore
          have apart (mark : UInt8) (ne : first ≠ mark) : first.toNat ≠ mark.toNat :=
            fun same => ne (UInt8.toNat_inj.mp same)
          have two : first.toNat ≠ 0xfd := apart 0xfd not2
          have four : first.toNat ≠ 0xfe := apart 0xfe not4
          have eight : first.toNat ≠ 0xff := apart 0xff not8
          have := first.toNat_lt
          exact ⟨[first], rfl, .one first (by omega)⟩

theorem read_renews : read.Renews fun n u => n < UInt64.size ∧ u = encode n := by
  intro input n rest ok
  obtain ⟨taken, rfl, form⟩ := read_form ok
  exact ⟨taken, encode n, rfl, ⟨form.lt, rfl⟩, read_encode n form.lt, form.encode_noLonger⟩

/-- A count is written in its shortest form, and the bytes that come with it are no fewer than it
says. -/
theorem renews_counted {β : Type} {f : Nat → Decoder β} {W : β → Bytes → Prop}
    (each : ∀ n, (f n).Takes n) (body : ∀ n, (f n).Renews fun y v => W y (encode n ++ v)) :
    (readCount >>= f).Renews W := by
  intro input y rest ok
  obtain ⟨n, mid, hcount, hbody⟩ := bind_eq_ok_iff.mp ok
  obtain ⟨hread, -⟩ := readCount_eq_ok_iff.mp hcount
  obtain ⟨a, u, rfl, ⟨small, rfl⟩, -, shortCount⟩ := read_renews hread
  obtain ⟨b, v, rfl, written, reads, shortBody⟩ := body n hbody
  have enough : n ≤ v.length := by simpa using each n (reads [])
  exact ⟨a ++ b, encode n ++ v, (List.append_assoc a b rest).symm, written,
    Reads.counted small enough reads, shortCount.append shortBody⟩

theorem readBytes_renews : readBytes.Renews fun x u => u = encodeBytes x := by
  apply renews_counted Takes.take
  intro n
  apply (Renews.take n).mono
  rintro x u ⟨rfl, rfl⟩
  rfl

/-- A list with its count in front. -/
theorem renews_list {α β : Type} {d : Decoder α} {g : List α → β} {W : α → Bytes → Prop}
    {L : List α → Bytes → Prop} {V : β → Bytes → Prop} (some : d.Takes 1) (each : d.Renews W)
    (nil : L [] []) (cons : ∀ x xs u v, W x u → L xs v → L (x :: xs) (u ++ v))
    (written : ∀ xs v, L xs v → V (g xs) (encode xs.length ++ v)) :
    (readCount >>= fun n => Decoder.times n d >>= fun xs => pure (g xs)).Renews V := by
  apply renews_counted
  · intro n
    exact (some.times n).map.mono (Nat.le_of_eq (Nat.mul_one n).symm)
  · intro n
    apply Renews.map
    apply (each.times nil cons n).mono
    rintro xs v ⟨rfl, all⟩
    exact written xs v all

end CompactSize

theorem Hash.read_renews : Hash.read.Renews fun hash u => u = hash.bytes :=
  Renews.of_exact Hash.read_delimits fun _ _ _ ok => ⟨_, rfl, Hash.append_of_read ok⟩

theorem readWord32_renews : readWord32.Renews fun n u => u = word32 n := by
  apply Renews.map
  apply Renews.map
  apply (Renews.take 4).mono
  rintro x u ⟨rfl, length⟩
  have below := Bytes.toNatLE_lt u
  have spelt := Bytes.ofNatLE_toNatLE u
  rw [length] at below spelt
  rw [word32, UInt32.toNat_ofNat_of_lt' below, spelt]

theorem readWord64_renews : readWord64.Renews fun n u => u = word64 n := by
  apply Renews.map
  apply Renews.map
  apply (Renews.take 8).mono
  rintro x u ⟨rfl, length⟩
  have below := Bytes.toNatLE_lt u
  have spelt := Bytes.ofNatLE_toNatLE u
  rw [length] at below spelt
  rw [word64, UInt64.toUInt64_toInt64, UInt64.toNat_ofNat_of_lt' below, spelt]

theorem Input.read_renews : Input.read.Renews fun input u => u = input.encode := by
  apply Hash.read_renews.bind
  rintro hash _ rfl
  apply readWord32_renews.bind
  rintro index _ rfl
  apply CompactSize.readBytes_renews.bind
  rintro script _ rfl
  apply Renews.map
  apply readWord32_renews.mono
  rintro sequence _ rfl
  simp only [encode, List.append_assoc]

theorem Output.read_renews : Output.read.Renews fun output u => u = output.encode := by
  apply readWord64_renews.bind
  rintro amount _ rfl
  apply Renews.map
  apply CompactSize.readBytes_renews.mono
  rintro script _ rfl
  rfl

namespace IntegerFormat

variable {format : IntegerFormat} {bytes : Bytes}

theorem toNatLE_arrange_lt (length : bytes.length = format.width) :
    Bytes.toNatLE (format.arrange bytes) < Bytes.modulus format.width := by
  have below := Bytes.toNatLE_lt (format.arrange bytes)
  rwa [length_arrange, length] at below

/-- Bytes of the width of the format are those of the number they spell. -/
theorem bytes_value (length : bytes.length = format.width) :
    format.bytes (format.value bytes) = bytes := by
  have below := toNatLE_arrange_lt length
  have raw : format.value bytes % (Bytes.modulus format.width : Int)
      = Bytes.toNatLE (format.arrange bytes) := by
    simp only [value]
    split
    · rw [Int.bmod_emod]
      exact Int.emod_eq_of_lt (by omega) (by omega)
    · exact Int.emod_eq_of_lt (by omega) (by omega)
  have spelt := Bytes.ofNatLE_toNatLE (format.arrange bytes)
  rw [length_arrange, length] at spelt
  rw [IntegerFormat.bytes, raw, Int.toNat_natCast, spelt, arrange_arrange]

theorem fits_value (supported : format.Supported) (length : bytes.length = format.width) :
    format.Fits (format.value bytes) := by
  have below := toNatLE_arrange_lt length
  have half := modulus_half supported
  simp only [Fits, lowest, highest, value]
  split
  · have low := Int.le_bmod (x := Bytes.toNatLE (format.arrange bytes))
      (Bytes.modulus_pos format.width)
    have high := Int.bmod_lt (x := Bytes.toNatLE (format.arrange bytes))
      (Bytes.modulus_pos format.width)
    omega
  · omega

/-- No number of the format is too small for a 64-bit value. -/
theorem le_value (supported : format.Supported) (length : bytes.length = format.width) :
    Int64.minValue.toInt ≤ format.value bytes := by
  have low := (fits_value supported length).1
  have least := Int64.toInt_minValue
  have widest : ∀ w ≤ 8, Bytes.modulus w ≤ 2 ^ 64 := by decide
  have := widest format.width supported.2
  unfold lowest at low
  split at low <;> omega

theorem read_renews (field : String) :
    (format.read field).Renews fun n u => format.write field n = .ofBytes u := by
  unfold read
  split
  · next supported =>
    apply (Renews.take format.width).bind
    rintro _ u ⟨rfl, length⟩
    dsimp only
    split
    · next inRange =>
      apply Renews.pure
      have above : format.value u < 2 ^ 63 := Int.lt_add_one_of_le inRange
      have below := le_value supported length
      rw [Int64.toInt_minValue] at below
      have exact := Int64.toInt_ofInt_of_le below above
      rw [List.append_nil, write_eq_ofBytes_iff, exact, bytes_value length]
      exact ⟨supported, fits_value supported length, rfl⟩
    · exact .throw _
  · exact .throw _

end IntegerFormat
end LedgerScript
