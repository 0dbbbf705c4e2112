import ConfigStream.Proofs.Frame.Memory
import ConfigStream.Proofs.Text.Fields
import ConfigStream.Proofs.Text.Lines
import ConfigStream.Proofs.Text.Numeral

/-!
# Bit addresses read back

The texts that are read as a bit address are given by a grammar (`BitAddress.parse_eq_ok_iff`), and
all others are refused with the text quoted (`BitAddress.parse_eq_error_iff`). So the written form
of a bit in a frame, which is one of the ways to write its address and has neither blanks nor a
comment, is read as the address (`BitAddress.parse_text`), and nothing else than the address of such
a bit is read (`BitAddress.inFrame_of_parse`).
-/

namespace ConfigStream.BitAddress

open Text

/-! ## The grammar -/

/-- The ways to write the address of a bit in a frame, without blanks around: `F` and the frame
address in hexadecimal, `W` and the word, `B` and the bit. -/
inductive Writes : List Char → BitAddress → Prop where
  | intro {mark frame word bit : List Char} {address : BitAddress} (hmark : mark ∈ hexMarks)
      (hframe : Text.Writes 16 frame address.frame.toNat)
      (hword : Text.Writes 10 word address.word) (hwordLe : address.word ≤ 92)
      (hbit : Text.Writes 10 bit address.bit) (hbitLe : address.bit ≤ 31) :
      Writes ('F' :: (mark ++ frame ++ 'W' :: (word ++ 'B' :: bit))) address

/-- What is read is written in one of these ways. -/
theorem writes_of_ofChars? {chars : List Char} {address : BitAddress}
    (h : ofChars? chars = some address) : Writes chars address := by
  unfold ofChars? at h
  split at h
  · simp only [bind, Option.bind_eq_some_iff, pure, Option.some.injEq, Prod.exists,
      cut?_eq_some] at h
    obtain ⟨marked, _, ⟨rfl, -⟩, word, bit, ⟨rfl, -⟩, frame, hframe, place, hword, index, hbit,
      rfl⟩ := h
    rw [unsigned?_eq_some_iff (by decide) (by decide)] at hframe hword hbit
    obtain ⟨mark, hmark, heq⟩ := exists_mark_append_unmarked marked
    rw [heq]
    refine .intro hmark ?_ hword.1 (Nat.le_of_lt_succ hword.2) hbit.1 (Nat.le_of_lt_succ hbit.2)
    rw [UInt32.toNat_ofNat_of_lt' hframe.2]
    exact hframe.1
  · cases h

/-- Each of these ways is read: neither separator occurs in what is written before it. -/
theorem Writes.ofChars?_eq {chars : List Char} {address : BitAddress} (h : Writes chars address) :
    ofChars? chars = some address := by
  cases h with
  | @intro mark frame word bit _ hmark hframe hword hwordLe hbit hbitLe =>
      have hbeforeWord : 'W' ∉ mark ++ frame := by
        have hmarks : ∀ mark ∈ hexMarks, 'W' ∉ mark := by decide
        have hdigits := hframe.forall_mem (motive := (· ≠ 'W')) (by decide) (by decide)
        rw [List.mem_append]
        exact fun hmem => hmem.elim (hmarks mark hmark) fun hmem => hdigits 'W' hmem rfl
      have hbeforeBit : 'B' ∉ word := fun hmem =>
        hword.forall_mem (motive := (· ≠ 'B')) (by decide) (by decide) 'B' hmem rfl
      have hframeValue : unsigned? 16 limit32 frame = some address.frame.toNat :=
        (unsigned?_eq_some_iff (by decide) (by decide)).2 ⟨hframe, address.frame.toNat_lt⟩
      have hwordValue : unsigned? 10 Frame.wordCount word = some address.word :=
        (unsigned?_eq_some_iff (by decide) (by decide)).2 ⟨hword, Nat.lt_succ_of_le hwordLe⟩
      have hbitValue : unsigned? 10 Word.width bit = some address.bit :=
        (unsigned?_eq_some_iff (by decide) (by decide)).2 ⟨hbit, Nat.lt_succ_of_le hbitLe⟩
      rw [ofChars?, cut?_eq_some.2 ⟨rfl, hbeforeWord⟩]
      simp only [Option.bind_eq_bind, Option.bind_some, cut?_eq_some.2 ⟨rfl, hbeforeBit⟩,
        unmarked_append hmark hframe, hframeValue, hwordValue, hbitValue, Option.pure_def,
        UInt32.ofNat_toNat]

/-- What is read is an address written in one of these ways, perhaps with blanks around it. -/
theorem parse_eq_ok_iff {text : String} {address : BitAddress} :
    parse text = .ok address ↔ ∃ inner, Trims text.toList inner ∧ Writes inner address := by
  have hread (inner : List Char) : ofChars? inner = some address ↔ Writes inner address :=
    ⟨writes_of_ofChars?, Writes.ofChars?_eq⟩
  simp only [← trim_eq_iff, exists_eq_left', ← hread, parse]
  cases ofChars? (Text.trim text.toList) <;> simp

/-- What is no address is refused, and quoted with the blanks around it. -/
theorem parse_eq_error_iff {text : String} {fault : Fault} :
    parse text = .error fault ↔ fault = .notBitAddress text ∧
      ¬ ∃ address inner, Trims text.toList inner ∧ Writes inner address := by
  simp only [← parse_eq_ok_iff, parse]
  cases ofChars? (Text.trim text.toList) <;> simp [eq_comm]

/-- What is read is the address of a bit in a frame. -/
theorem inFrame_of_parse {text : String} {address : BitAddress}
    (h : parse text = .ok address) : address.InFrame := by
  obtain ⟨_, -, -, -, -, hwordLe, -, hbitLe⟩ := parse_eq_ok_iff.1 h
  exact ⟨Nat.lt_succ_of_le hwordLe, Nat.lt_succ_of_le hbitLe⟩

/-! ## The written form -/

/-- The characters of the written form. -/
theorem toList_text (address : BitAddress) :
    address.text.toList = 'F' :: '0' :: 'x' :: (digits 16 8 address.frame.toNat ++
      'W' :: (digits 10 3 address.word ++ 'B' :: digits 10 2 address.bit)) := by
  simp [text, hex, decimal]

/-- What digits and the letters of the written form are, all its characters are. -/
theorem forall_mem_text {motive : Char → Prop}
    (hdigits : ∀ place < 16, motive place.digitChar ∧ motive place.digitChar.toUpper)
    (hletters : motive 'F' ∧ motive 'x' ∧ motive 'W' ∧ motive 'B') (address : BitAddress) :
    ∀ c ∈ address.text.toList, motive c := by
  have hdecimal : ∀ place < 10, motive place.digitChar ∧ motive place.digitChar.toUpper :=
    fun place hlt => hdigits place (Nat.lt_of_lt_of_le hlt (by decide))
  obtain ⟨hF, hx, hW, hB⟩ := hletters
  rw [toList_text]
  simp only [List.forall_mem_cons, List.forall_mem_append]
  exact ⟨hF, (hdigits 0 (by decide)).1, hx, (spells_digits (by decide) _ _).forall_mem hdigits, hW,
    (spells_digits (by decide) _ _).forall_mem hdecimal, hB,
    (spells_digits (by decide) _ _).forall_mem hdecimal⟩

/-- The written form has neither blanks nor a comment. -/
theorem isPlain_of_mem_text (address : BitAddress) :
    ∀ c ∈ address.text.toList, isBlank c = false ∧ c ≠ '#' :=
  forall_mem_text (motive := fun c => isBlank c = false ∧ c ≠ '#') (by decide) (by decide) address

/-- The written form is one line. -/
theorem isInline_of_mem_text (address : BitAddress) : ∀ c ∈ address.text.toList, IsInline c :=
  forall_mem_text (motive := IsInline) (by decide) (by decide) address

/-- The written form is one of the ways to write the address of a bit in a frame. -/
theorem writes_text {address : BitAddress} (h : address.InFrame) :
    Writes address.text.toList address := by
  have hmark : ['0', 'x'] ∈ hexMarks := by decide
  rw [toList_text]
  exact .intro hmark (.bare (spells_digits (by decide) _ _)) (.bare (spells_digits (by decide) _ _))
    (Nat.le_of_lt_succ h.1) (.bare (spells_digits (by decide) _ _)) (Nat.le_of_lt_succ h.2)

/-- Reading the written form of a bit in a frame gives its address. -/
theorem parse_text {address : BitAddress} (h : address.InFrame) :
    parse address.text = .ok address :=
  parse_eq_ok_iff.2 ⟨_, trim_eq_iff.1 (trim_of_forall fun c hc =>
    (isPlain_of_mem_text address c hc).1), writes_text h⟩

/-! ## Reading and printing -/

/-- Reading accepts the grammar and nothing else, and inverts printing: the written form of the
address of a bit in a frame gives the address back, and so does the written form of whatever has
been read. -/
theorem parse_grammar (text : String) :
    (∀ address, parse text = .ok address ↔
      ∃ inner, Trims text.toList inner ∧ Writes inner address) ∧
    (∀ fault, parse text = .error fault ↔ fault = .notBitAddress text ∧
      ¬ ∃ address inner, Trims text.toList inner ∧ Writes inner address) ∧
    (∀ address : BitAddress, address.word ≤ 92 → address.bit ≤ 31 →
      parse address.text = .ok address) ∧
    ∀ address, parse text = .ok address → parse address.text = .ok address :=
  ⟨fun _ => parse_eq_ok_iff, fun _ => parse_eq_error_iff,
    fun _ hword hbit => parse_text ⟨Nat.lt_succ_of_le hword, Nat.lt_succ_of_le hbit⟩,
    fun _ hread => parse_text (inFrame_of_parse hread)⟩

/-- A frame address may have the letter that separates word and bit among its digits. -/
theorem parse_grammar_signed :
    parse " F0X+1BfW+007B031\n" = .ok ⟨0x1bf, 7, 31⟩ ∧
      parse (BitAddress.text ⟨0x1bf, 7, 31⟩) = .ok ⟨0x1bf, 7, 31⟩ ∧
      parse (BitAddress.text ⟨0x1bf, 92, 31⟩) = .ok ⟨0x1bf, 92, 31⟩ := by
  have hmark : ['0', 'X'] ∈ hexMarks := by decide
  have hframe : Text.Writes 16 ['+', '1', 'B', 'f'] 0x1bf :=
    .signed ⟨[1, 11, 15], by decide, by decide, by decide⟩
  have hword : Text.Writes 10 ['+', '0', '0', '7'] 7 :=
    .signed ⟨[0, 0, 7], by decide, by decide, by decide⟩
  have hbit : Text.Writes 10 ['0', '3', '1'] 31 :=
    .bare ⟨[0, 3, 1], by decide, by decide, by decide⟩
  have hwrites := @Writes.intro _ _ _ _ ⟨0x1bf, 7, 31⟩ hmark hframe hword (by decide) hbit
    (by decide)
  have hread : parse " F0X+1BfW+007B031\n" = .ok ⟨0x1bf, 7, 31⟩ :=
    ((parse_grammar _).1 _).2 ⟨_, trim_eq_iff.1 (by decide), hwrites⟩
  exact ⟨hread, (parse_grammar _).2.2.2 _ hread,
    (parse_grammar "").2.2.1 _ (by decide) (by decide)⟩

end ConfigStream.BitAddress
