import Troe.Lib.Utf8

/-!
# Terminal input

The model of `decode.rs`: a byte stream decoded one byte at a time into keys, with ANSI escape
sequences and multi-byte characters.
-/

namespace Troe.Terminal

open Lib

/-- `KeyEvent`. -/
inductive KeyEvent where
  | character (scalar : ℕ)
  | enter
  | backspace
  | delete
  | left
  | right
  | home
  | «end»
  | up
  | down
  | complete
  | cancel
  | clearDisplay
  | killBefore
  | killAfter
  | deletePreviousWord
  | endOfInput
deriving DecidableEq

/-- `DecodeState`. -/
inductive DecodeState where
  | ground
  | escape (bytes : ℕ)
  | csi (bytes parameter : ℕ) (hasParameter unsupported : Bool)
  | ss3 (bytes : ℕ)
  | discard

/-- `InputDecoder`: `utf8` holds the bytes of the array in use. -/
structure InputDecoder where
  maxEscapeBytes : ℕ
  state : DecodeState := .ground
  discardLeadingLf : Bool := false
  utf8 : Bytes := []
  utf8Expected : ℕ := 0

namespace InputDecoder

/-- `char::REPLACEMENT_CHARACTER`. -/
def replacement : ℕ := 0xfffd

/-- `reset_utf8`. -/
def resetUtf8 (self : InputDecoder) : InputDecoder := { self with utf8 := [], utf8Expected := 0 }

/-- The length a first byte announces. -/
def expectedBytes (byte : UInt8) : Option ℕ :=
  if isBetween 0xc2 0xdf byte then some 2
  else if isBetween 0xe0 0xef byte then some 3
  else if isBetween 0xf0 0xf4 byte then some 4
  else none

/-- The end of `push_utf8`: one more byte of the sequence. -/
def extendUtf8 (self : InputDecoder) (byte : UInt8) : Option KeyEvent × InputDecoder :=
  let self := { self with utf8 := self.utf8 ++ [byte] }
  if self.utf8.length < self.utf8Expected then (none, self)
  else
    let character := ((decodeUtf8 self.utf8).bind List.head?).getD replacement
    (some (.character character), self.resetUtf8)

/-- `push_utf8`. -/
def pushUtf8 (self : InputDecoder) (byte : UInt8) : Option KeyEvent × InputDecoder :=
  if self.utf8 = [] then
    match expectedBytes byte with
    | some expected => extendUtf8 { self with utf8Expected := expected } byte
    | none => (some (.character replacement), self)
  else if isContinuation byte then self.extendUtf8 byte
  else (some (.character replacement), self.resetUtf8)

/-- `push_ground`. -/
def pushGround (self : InputDecoder) (byte : UInt8) : Option KeyEvent × InputDecoder :=
  if self.discardLeadingLf ∧ byte.toNat = 0x0a then (none, { self with discardLeadingLf := false })
  else
    let self := { self with discardLeadingLf := false }
    match byte.toNat with
    | 0x0d => (some .enter, { self with discardLeadingLf := true })
    | 0x0a => (some .enter, self)
    | 0x08 | 0x7f => (some .backspace, self)
    | 0x09 => (some .complete, self)
    | 0x01 => (some .home, self)
    | 0x03 => (some .cancel, self)
    | 0x04 => (some .endOfInput, self)
    | 0x05 => (some .end, self)
    | 0x0b => (some .killAfter, self)
    | 0x0c => (some .clearDisplay, self)
    | 0x15 => (some .killBefore, self)
    | 0x17 => (some .deletePreviousWord, self)
    | 0x1b => (none, { self.resetUtf8 with state := .escape 1 })
    | byte' =>
      if 0x20 ≤ byte' ∧ byte' ≤ 0x7e then (some (.character byte'), self)
      else if 0x80 ≤ byte' then self.pushUtf8 byte
      else (none, self)

/-- `push_escape`. -/
def pushEscape (self : InputDecoder) (byte : UInt8) (bytes : ℕ) : Option KeyEvent × InputDecoder :=
  let bytes := min (bytes + 1) (2 ^ 64 - 1)
  if self.maxEscapeBytes < bytes then (none, { self with state := .discard })
  else if byte = 0x5b then (none, { self with state := .csi bytes 0 false false })
  else if byte = 0x4f then (none, { self with state := .ss3 bytes })
  else (none, { self with state := .ground })

/-- The key of a control sequence. -/
def csiKey (byte parameter : ℕ) (hasParameter : Bool) : Option KeyEvent :=
  match byte, if hasParameter then some parameter else none with
  | 0x41, none | 0x41, some 1 => some .up
  | 0x42, none | 0x42, some 1 => some .down
  | 0x43, none | 0x43, some 1 => some .right
  | 0x44, none | 0x44, some 1 => some .left
  | 0x48, none | 0x48, some 1 | 0x7e, some 1 | 0x7e, some 7 => some .home
  | 0x46, none | 0x46, some 1 | 0x7e, some 4 | 0x7e, some 8 => some .end
  | 0x7e, some 3 => some .delete
  | _, _ => none

/-- `push_csi`. -/
def pushCsi (self : InputDecoder) (byte : UInt8) (bytes parameter : ℕ)
    (hasParameter unsupported : Bool) : Option KeyEvent × InputDecoder :=
  let bytes := min (bytes + 1) (2 ^ 64 - 1)
  if self.maxEscapeBytes < bytes then (none, { self with state := .discard })
  else if isBetween 0x30 0x39 byte ∧ ¬ unsupported then
    let parameter := min (min (parameter * 10) 65535 + (byte.toNat - 0x30)) 65535
    (none, { self with state := .csi bytes parameter true unsupported })
  else if isBetween 0x20 0x3f byte then
    (none, { self with state := .csi bytes parameter hasParameter true })
  else if isBetween 0x40 0x7e byte then
    (if unsupported then none else csiKey byte.toNat parameter hasParameter,
      { self with state := .ground })
  else (none, { self with state := .discard })

/-- `push_ss3`. -/
def pushSs3 (self : InputDecoder) (byte : UInt8) (bytes : ℕ) : Option KeyEvent × InputDecoder :=
  let bytes := min (bytes + 1) (2 ^ 64 - 1)
  let key :=
    if self.maxEscapeBytes < bytes then none
    else match byte.toNat with
      | 0x41 => some .up
      | 0x42 => some .down
      | 0x43 => some .right
      | 0x44 => some .left
      | 0x48 => some .home
      | 0x46 => some .end
      | _ => none
  (key, { self with state := .ground })

/-- `push_discard`. -/
def pushDiscard (self : InputDecoder) (byte : UInt8) : InputDecoder :=
  if isBetween 0x40 0x7e byte then { self with state := .ground } else self

/-- `push`. -/
def push (self : InputDecoder) (byte : UInt8) : Option KeyEvent × InputDecoder :=
  match self.state with
  | .ground => self.pushGround byte
  | .escape bytes => self.pushEscape byte bytes
  | .csi bytes parameter hasParameter unsupported =>
    self.pushCsi byte bytes parameter hasParameter unsupported
  | .ss3 bytes => self.pushSs3 byte bytes
  | .discard => (none, self.pushDiscard byte)

/-- The decoder after a stream. -/
def after (maxEscapeBytes : ℕ) (stream : Bytes) : InputDecoder :=
  stream.foldl (fun decoder byte => (decoder.push byte).2) { maxEscapeBytes }

/-- The UTF-8 encoding of a scalar value. -/
def encodeUtf8 (scalar : ℕ) : Bytes :=
  List.map UInt8.ofNat <|
    if scalar < 0x80 then [scalar]
    else if scalar < 0x800 then [0xc0 + scalar / 64, 0x80 + scalar % 64]
    else if scalar < 0x10000 then
      [0xe0 + scalar / 4096, 0x80 + scalar / 64 % 64, 0x80 + scalar % 64]
    else
      [0xf0 + scalar / 262144, 0x80 + scalar / 4096 % 64, 0x80 + scalar / 64 % 64,
        0x80 + scalar % 64]

theorem ofNat_eq {n : ℕ} (byte : UInt8) (h : n = byte.toNat) : UInt8.ofNat n = byte := by
  rw [h, UInt8.ofNat_toNat]

/-- A sequence of the length its first byte announces is the encoding of what it decodes to. -/
theorem encodeUtf8_of_decode {first : UInt8} {tail : Bytes} {c : ℕ} {rest : List ℕ}
    (hlength : expectedBytes first = some (tail.length + 1))
    (h : decodeUtf8 (first :: tail) = some (c :: rest)) : encodeUtf8 c = first :: tail := by
  unfold expectedBytes at hlength
  simp only [isBetween, decide_eq_true_eq] at hlength
  split at hlength
  next hfirst =>
    obtain ⟨y, rfl⟩ := List.length_eq_one_iff.mp (Nat.succ_inj.mp (Option.some.inj hlength).symm)
    simp [decodeUtf8, isContinuation, isBetween, hfirst, show ¬ first.toNat < 128 by omega] at h
    rw [encodeUtf8, if_neg (by omega), if_pos (by omega), List.map_cons, List.map_cons,
      List.map_nil, ofNat_eq first (by omega), ofNat_eq y (by omega)]
  split at hlength
  next hfirst =>
    obtain ⟨y, z, rfl⟩ := List.length_eq_two.mp (Nat.succ_inj.mp (Option.some.inj hlength).symm)
    simp [decodeUtf8, isContinuation, isBetween, hfirst, show ¬ first.toNat < 128 by omega,
      show ¬ first.toNat ≤ 223 by omega] at h
    rw [encodeUtf8, if_neg (by grind), if_neg (by grind), if_pos (by grind), List.map_cons,
      List.map_cons, List.map_cons, List.map_nil, ofNat_eq first (by grind),
      ofNat_eq y (by grind), ofNat_eq z (by grind)]
  split at hlength
  next hfirst =>
    obtain ⟨y, z, w, rfl⟩ :=
      List.length_eq_three.mp (Nat.succ_inj.mp (Option.some.inj hlength).symm)
    simp [decodeUtf8, isContinuation, isBetween, hfirst, show ¬ first.toNat < 128 by omega,
      show ¬ first.toNat ≤ 223 by omega, show ¬ first.toNat ≤ 239 by omega] at h
    rw [encodeUtf8, if_neg (by grind), if_neg (by grind), if_neg (by grind), List.map_cons,
      List.map_cons, List.map_cons, List.map_cons, List.map_nil,
      ofNat_eq first (by grind), ofNat_eq y (by grind),
      ofNat_eq z (by grind), ofNat_eq w (by grind)]
  · cases hlength

/-- The bytes held are the last of the stream, and the start of one sequence. -/
structure Holds (decoder : InputDecoder) (stream : Bytes) : Prop where
  suffix : decoder.utf8 <:+ stream
  ground : decoder.utf8 ≠ [] → decoder.state = .ground
  lead : ∀ first tail, decoder.utf8 = first :: tail →
    expectedBytes first = some decoder.utf8Expected ∧ tail.length + 1 < decoder.utf8Expected

/-- A multi-byte character that is emitted ends the stream. -/
def Ends (key : Option KeyEvent) (stream : Bytes) : Prop :=
  ∀ c, key = some (.character c) → 0x80 ≤ c → c ≠ replacement → encodeUtf8 c <:+ stream

variable {maxEscapeBytes : ℕ} {decoder : InputDecoder} {stream : Bytes} {byte : UInt8}

theorem Holds.of_nil (h : decoder.utf8 = []) : Holds decoder stream :=
  ⟨by simp [h], by simp [h], by simp [h]⟩

theorem csiKey_ne_character (byte parameter : ℕ) (hasParameter : Bool) (c : ℕ) :
    csiKey byte parameter hasParameter ≠ some (.character c) := by
  unfold csiKey
  split <;> simp

/-- A byte goes to the sequence held, or it emits no multi-byte character. In the second case nothing
is held afterwards if nothing was before, or if the byte is an escape. -/
theorem push_cases (decoder : InputDecoder) (byte : UInt8) :
    (decoder.state = .ground ∧
        decoder.push byte = { decoder with discardLeadingLf := false }.pushUtf8 byte) ∨
      ((decoder.utf8 ≠ [] → decoder.state = .ground ∧ (0x80 ≤ byte.toNat ∨ byte.toNat = 0x1b)) →
        (decoder.push byte).2.utf8 = []) ∧ ∀ stream, Ends (decoder.push byte).1 stream := by
  unfold push
  split
  · by_cases hbyte : 0x80 ≤ byte.toNat
    · left
      grind [pushGround]
    · right
      grind [pushGround, Ends, resetUtf8]
  · grind [pushEscape, Ends]
  · grind [pushCsi, Ends, csiKey_ne_character]
  · grind [pushSs3, Ends]
  · grind [pushDiscard, Ends]

/-- One more byte of a sequence. -/
theorem extendUtf8_holds (hsuffix : decoder.utf8 <:+ stream) (hground : decoder.state = .ground)
    (hlead : ∀ first tail, decoder.utf8 ++ [byte] = first :: tail →
      expectedBytes first = some decoder.utf8Expected ∧ tail.length + 1 ≤ decoder.utf8Expected) :
    Holds (decoder.extendUtf8 byte).2 (stream ++ [byte]) ∧
      Ends (decoder.extendUtf8 byte).1 (stream ++ [byte]) := by
  have hsuffix : decoder.utf8 ++ [byte] <:+ stream ++ [byte] :=
    (List.suffix_append_inj_of_length_eq rfl).mpr ⟨hsuffix, rfl⟩
  obtain ⟨first, tail, hcons⟩ : ∃ first tail, decoder.utf8 ++ [byte] = first :: tail :=
    List.exists_cons_of_ne_nil (by simp)
  obtain ⟨hexpected, hle⟩ := hlead first tail hcons
  unfold extendUtf8
  simp only [hcons, List.length_cons] at hsuffix ⊢
  split
  next hlt =>
    refine ⟨⟨hsuffix, fun _ => hground, ?_⟩, fun _ hkey => by cases hkey⟩
    rintro _ _ ⟨⟩
    exact ⟨hexpected, hlt⟩
  next hlt =>
    refine ⟨.of_nil rfl, ?_⟩
    rintro c hkey - hne
    rw [show decoder.utf8Expected = tail.length + 1 by omega] at hexpected
    cases hhead : (decodeUtf8 (first :: tail)).bind List.head? with
    | none =>
      rw [hhead] at hkey
      cases hkey
      exact absurd rfl hne
    | some scalar =>
      rw [hhead] at hkey
      cases hkey
      obtain ⟨scalars, hdecode, hscalar⟩ := Option.bind_eq_some_iff.mp hhead
      obtain ⟨rest, rfl⟩ := List.head?_eq_some_iff.mp hscalar
      rwa [Option.getD_some, encodeUtf8_of_decode hexpected hdecode]

/-- One byte, while nothing but an escape interrupts a sequence. -/
theorem Holds.push (h : Holds decoder stream)
    (hbyte : decoder.utf8 ≠ [] → 0x80 ≤ byte.toNat ∨ byte.toNat = 0x1b) :
    Holds (decoder.push byte).2 (stream ++ [byte]) ∧
      Ends (decoder.push byte).1 (stream ++ [byte]) := by
  obtain ⟨hground, heq⟩ | ⟨hnil, hends⟩ := push_cases decoder byte
  · rw [heq, pushUtf8]
    have hrejected : Ends (some (.character replacement)) (stream ++ [byte]) := by
      rintro c ⟨⟩ - hne
      exact absurd rfl hne
    split
    next hempty =>
      split
      next expected hexpected =>
        refine extendUtf8_holds h.suffix hground fun first tail hcons => ?_
        obtain ⟨rfl, rfl⟩ : byte = first ∧ [] = tail := by
          simpa [show decoder.utf8 = [] from hempty] using hcons
        exact ⟨hexpected, by grind [expectedBytes]⟩
      · exact ⟨.of_nil hempty, hrejected⟩
    next hne =>
      split
      · refine extendUtf8_holds h.suffix hground fun first tail hcons => ?_
        obtain ⟨first', tail', hheld⟩ : ∃ first' tail', decoder.utf8 = first' :: tail' :=
          List.exists_cons_of_ne_nil hne
        obtain ⟨rfl, rfl⟩ : first' = first ∧ tail' ++ [byte] = tail := by
          simpa [hheld] using hcons
        rw [List.length_append]
        exact h.lead _ _ hheld
      · exact ⟨.of_nil rfl, hrejected⟩
  · exact ⟨.of_nil (hnil fun hne => ⟨h.ground hne, hbyte hne⟩), hends _⟩

/-- Nothing but an escape interrupts a multi-byte sequence of the stream. -/
def Uninterrupted (maxEscapeBytes : ℕ) (stream : Bytes) : Prop :=
  ∀ before byte, before ++ [byte] <+: stream → (after maxEscapeBytes before).utf8 ≠ [] →
    0x80 ≤ byte.toNat ∨ byte.toNat = 0x1b

theorem Uninterrupted.init (h : Uninterrupted maxEscapeBytes (stream ++ [byte])) :
    Uninterrupted maxEscapeBytes stream :=
  fun before next hle => h before next (hle.trans (List.prefix_append _ _))

theorem holds_after (h : Uninterrupted maxEscapeBytes stream) :
    Holds (after maxEscapeBytes stream) stream := by
  induction stream using List.reverseRecOn with
  | nil => exact .of_nil rfl
  | append_singleton stream byte ih =>
    rw [after, List.foldl_append]
    exact ((ih h.init).push (h stream byte (List.prefix_refl _))).1

/-- A multi-byte character is the decoding of the bytes pushed last, and what is held of a sequence
are the bytes pushed last, as long as nothing but an escape interrupts a sequence. -/
theorem character_contiguous (h : Uninterrupted maxEscapeBytes (stream ++ [byte])) :
    (∀ c, ((after maxEscapeBytes stream).push byte).1 = some (.character c) → 0x80 ≤ c →
        c ≠ replacement → encodeUtf8 c <:+ stream ++ [byte]) ∧
      (after maxEscapeBytes (stream ++ [byte])).utf8 <:+ stream ++ [byte] :=
  ⟨((holds_after h.init).push (h stream byte (List.prefix_refl _))).2, (holds_after h).suffix⟩

/-- Two bytes that encode one character. -/
theorem character_contiguous_pair :
    ((after 16 [0xc3]).push 0xa9).1 = some (.character 0xe9) ∧
      encodeUtf8 0xe9 <:+ [0xc3] ++ [0xa9] := by
  have hkey : ((after 16 [0xc3]).push 0xa9).1 = some (.character 0xe9) := by decide
  have h : Uninterrupted 16 ([0xc3] ++ [0xa9]) := by
    intro before byte hle _
    have hmem : byte ∈ [(0xc3 : UInt8), 0xa9] := hle.subset (by simp)
    rcases List.mem_pair.mp hmem with rfl | rfl
    · decide
    · decide
  exact ⟨hkey, (character_contiguous h).1 0xe9 hkey (by decide) (by decide)⟩

/-- An interrupting letter is emitted, and the sequence goes on after it. -/
theorem character_not_contiguous :
    ((after 16 [0xc3, 0x61]).push 0xa9).1 = some (.character 0xe9) ∧
      ¬ encodeUtf8 0xe9 <:+ [0xc3, 0x61, 0xa9] := by decide

end InputDecoder

end Troe.Terminal
