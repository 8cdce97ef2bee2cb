import DesignLint.Proofs.Text.Place

/-!
# The bytes of a text

A text can also be read byte by byte: `Text.at? cs i` is the byte at an offset, written as the
character with that number, so that the bytes of ASCII characters are these characters. Between the
bytes of one character the text cannot be cut: `Text.cut?`, and with it `Text.from?`,
`Text.before?` and `Text.slice?`, have a result at boundaries only.

At a point that is in the text all of these say what the cursor says (`at?_eq_some_iff`,
`from?_eq`, `slice?_eq`). A character that is not ASCII has no byte that could be taken for an ASCII
character, so whoever looks for ASCII characters only passes over its bytes one by one
(`PassesOver.eq`), from wherever in the character.
-/

namespace DesignLint

namespace Text

/-- The bytes of a text in UTF-8. -/
def bytes (cs : Text) : List UInt8 := cs.flatMap String.utf8EncodeChar

/-- The byte at an offset, as the character with its number. -/
def at? (cs : Text) (i : Nat) : Option Char := cs.bytes[i]?.map fun b => Char.ofNat b.toNat

/-- The parts of a text in front of an offset and behind it, if it can be cut there. -/
def cut? : Nat → Text → Option (Text × Text)
  | 0, cs => some ([], cs)
  | _ + 1, [] => none
  | n + 1, c :: cs =>
    if c.utf8Size ≤ n + 1 then (cut? (n + 1 - c.utf8Size) cs).map fun p => (c :: p.1, p.2) else none

/-- The text from an offset on. -/
def from? (cs : Text) (i : Nat) : Option Text := (cut? i cs).map Prod.snd

/-- The text in front of an offset. -/
def before? (cs : Text) (i : Nat) : Option Text := (cut? i cs).map Prod.fst

/-- The text between two offsets. -/
def slice? (cs : Text) (i j : Nat) : Option Text :=
  if i ≤ j then (cs.from? i).bind (·.before? (j - i)) else none

/-- The offset at which a text first holds another one. -/
def find? (lead cs : Text) : Option Nat := ((Cursor.start cs).find lead).map Cursor.offset

/-! ### Cutting -/

theorem cut?_eq_some {n : Nat} {cs as bs : Text} :
    cut? n cs = some (as, bs) ↔ cs = as ++ bs ∧ as.size = n := by
  fun_induction cut? n cs generalizing as with
  | case1 cs =>
    constructor
    · intro h
      cases h
      exact ⟨rfl, rfl⟩
    · rintro ⟨rfl, hn⟩
      rw [size_eq_zero.mp hn]
      rfl
  | case2 n =>
    constructor
    · intro h
      cases h
    · rintro ⟨h, hn⟩
      obtain ⟨rfl, -⟩ := List.append_eq_nil_iff.mp h.symm
      simp at hn
  | case3 n c cs hle ih =>
    rw [Option.map_eq_some_iff]
    constructor
    · rintro ⟨⟨us, vs⟩, hcut, heq⟩
      cases heq
      obtain ⟨rfl, hn⟩ := ih.mp hcut
      refine ⟨rfl, ?_⟩
      show c.utf8Size + size us = n + 1
      omega
    · rintro ⟨heq, hn⟩
      cases as with
      | nil => simp at hn
      | cons d us =>
        obtain ⟨rfl, rfl⟩ := List.cons.inj heq
        rw [size_cons] at hn
        exact ⟨(us, bs), ih.mpr ⟨rfl, by omega⟩, rfl⟩
  | case4 n c cs hgt =>
    constructor
    · intro h
      cases h
    · rintro ⟨heq, hn⟩
      cases as with
      | nil => simp at hn
      | cons d us =>
        obtain ⟨rfl, -⟩ := List.cons.inj heq
        rw [size_cons] at hn
        omega

/-- A text can be cut in front of a part of it and behind that. -/
theorem slice?_append (as bs cs : Text) :
    (as ++ bs ++ cs).slice? as.size (as.size + bs.size) = some bs := by
  have hfrom : (as ++ bs ++ cs).from? as.size = some (bs ++ cs) := by
    rw [from?, cut?_eq_some.mpr ⟨List.append_assoc as bs cs, rfl⟩]
    rfl
  rw [slice?, if_pos (Nat.le_add_right _ _), hfrom, Nat.add_sub_cancel_left, Option.bind_some,
    before?, cut?_eq_some.mpr ⟨rfl, rfl⟩]
  rfl

/-- Inside of a character a text is not cut. -/
example : cut? 1 ['é', 'a'] = none := rfl

section

variable {cs us before : Text} {k l : Cursor}

theorem cut?_eq (hk : (Cursor.start cs).Passes before k) :
    cut? k.offset cs = some (before, k.rest) := by
  have hoff : k.offset = size before := by
    have := hk.2
    simpa [Cursor.start] using this
  exact cut?_eq_some.mpr ⟨hk.1, hoff.symm⟩

theorem before?_eq (hk : (Cursor.start cs).Passes before k) :
    cs.before? k.offset = some before := by
  rw [before?, cut?_eq hk]
  rfl

theorem from?_eq (hk : k.In cs) : cs.from? k.offset = some k.rest := by
  obtain ⟨before, hb⟩ := hk
  rw [from?, cut?_eq hb]
  rfl

theorem slice?_eq (hk : k.In cs) (hp : k.Passes us l) :
    cs.slice? k.offset l.offset = some us := by
  have hcut : cut? (l.offset - k.offset) k.rest = some (us, l.rest) := by
    refine cut?_eq_some.mpr ⟨hp.1, ?_⟩
    have := hp.2
    omega
  rw [slice?, if_pos hp.le, from?_eq hk, Option.bind_some, before?, hcut]
  rfl

theorem find_map_offset (lead : Text) (k : Cursor) :
    (k.find lead).map Cursor.offset = (find? lead k.rest).map (k.offset + ·) := by
  obtain ⟨o, rest⟩ := k
  have hshift : ∀ (o n : Nat) (rest : Text),
      (Cursor.find.go lead (o + n) rest).map Cursor.offset =
        ((Cursor.find.go lead n rest).map Cursor.offset).map (o + ·) := by
    intro o n rest
    fun_induction Cursor.find.go lead n rest with
    | case1 n h => simp [Cursor.find.go, h]
    | case2 n h => simp [Cursor.find.go, h]
    | case3 n c rest h => simp [Cursor.find.go, h]
    | case4 n c rest h ih => rw [Cursor.find.go, if_neg h, Nat.add_assoc, ih]
  exact hshift o 0 rest

theorem find?_of_find {lead : Text} (h : k.find lead = some l) :
    ∃ n, find? lead k.rest = some n ∧ k.offset + n = l.offset := by
  have hfind := find_map_offset lead k
  rw [h, Option.map_some, eq_comm, Option.map_eq_some_iff] at hfind
  exact hfind

theorem find?_of_find_none {lead : Text} (h : k.find lead = none) : find? lead k.rest = none := by
  have hfind := find_map_offset lead k
  rwa [h, Option.map_none, eq_comm, Option.map_eq_none_iff] at hfind

end

/-! ### Bytes -/

@[simp] theorem bytes_append (as bs : Text) : (as ++ bs).bytes = as.bytes ++ bs.bytes :=
  List.flatMap_append

@[simp] theorem bytes_cons (c : Char) (cs : Text) :
    bytes (c :: cs) = String.utf8EncodeChar c ++ bytes cs := rfl

@[simp] theorem length_bytes (cs : Text) : cs.bytes.length = cs.size := by
  induction cs with
  | nil => rfl
  | cons c cs ih => rw [bytes_cons, List.length_append, ih, String.length_utf8EncodeChar, size_cons]

theorem at?_eq_none_iff {cs : Text} {i : Nat} : cs.at? i = none ↔ cs.size ≤ i := by
  rw [at?, Option.map_eq_none_iff, List.getElem?_eq_none_iff, length_bytes]

theorem lt_size_of_at? {cs : Text} {i : Nat} {c : Char} (h : cs.at? i = some c) : i < cs.size := by
  by_contra hge
  rw [at?_eq_none_iff.mpr (Nat.le_of_not_lt hge)] at h
  cases h

theorem utf8Size_of_lt {c : Char} (h : c.toNat < 128) : c.utf8Size = 1 := by
  rw [Char.utf8Size_eq_one_iff, UInt32.le_iff_toNat_le]
  exact Nat.le_of_lt_succ h

/-- No byte of a character that is not ASCII is one of an ASCII character. -/
theorem le_of_mem_utf8EncodeChar {c : Char} (hc : 128 ≤ c.toNat) {b : UInt8}
    (hb : b ∈ String.utf8EncodeChar c) : 128 ≤ b.toNat := by
  have hv : 128 ≤ c.val.toNat := hc
  unfold String.utf8EncodeChar at hb
  have hbyte : ∀ n, 128 ≤ n → n < 256 → 128 ≤ (UInt8.ofNat n).toNat := by
    intro n hle hlt
    rw [UInt8.toNat_ofNat']
    omega
  simp only at hb
  split_ifs at hb with h1 h2 h3 <;> simp only [List.mem_cons, List.not_mem_nil, or_false] at hb
  · omega
  · rcases hb with rfl | rfl <;> exact hbyte _ (by omega) (by omega)
  · rcases hb with rfl | rfl | rfl <;> exact hbyte _ (by omega) (by omega)
  · rcases hb with rfl | rfl | rfl | rfl <;> exact hbyte _ (by omega) (by omega)

theorem toNat_ofNat_byte (b : UInt8) : (Char.ofNat b.toNat).toNat = b.toNat := by
  have hb : b.toNat < 256 := b.toNat_lt
  have hvalid : b.toNat.isValidChar := Or.inl (by omega)
  rw [Char.ofNat, dif_pos hvalid]
  rfl

section

variable {α : Type} {cs ds : Text} {k : Cursor} {c : Char} {f : Nat → α}

theorem at?_add (hk : k.In cs) (j : Nat) : cs.at? (k.offset + j) = k.rest.at? j := by
  obtain ⟨before, hcs, ho⟩ := Cursor.in_iff.mp hk
  have hlen : before.bytes.length = k.offset := by rw [length_bytes, ho]
  rw [at?, at?, hcs, bytes_append, List.getElem?_append_right (by omega), hlen,
    Nat.add_sub_cancel_left]

theorem at?_eq_some (hk : k.In cs) (hr : k.rest = c :: ds) (hc : c.toNat < 128) :
    cs.at? k.offset = some c := by
  have h := at?_add hk 0
  have hbyte : String.utf8EncodeChar c = [c.val.toUInt8] :=
    String.utf8EncodeChar_eq_singleton (utf8Size_of_lt hc)
  have hval : c.val.toUInt8.toNat = c.toNat := by
    rw [UInt32.toNat_toUInt8]
    exact Nat.mod_eq_of_lt (by show c.toNat < 256; omega)
  rw [Nat.add_zero, hr] at h
  rw [h, at?, bytes_cons, hbyte]
  show some (Char.ofNat c.val.toUInt8.toNat) = some c
  rw [hval, Char.ofNat_toNat]

theorem exists_at? (hk : k.In cs) (hr : k.rest = c :: ds) {j : Nat} (hj : j < c.utf8Size)
    (hc : 128 ≤ c.toNat) : ∃ x, cs.at? (k.offset + j) = some x ∧ 128 ≤ x.toNat := by
  have hlen : j < (String.utf8EncodeChar c).length := by rwa [String.length_utf8EncodeChar]
  refine ⟨Char.ofNat (String.utf8EncodeChar c)[j].toNat, ?_, ?_⟩
  · rw [at?_add hk, hr, at?, bytes_cons, List.getElem?_append_left hlen,
      List.getElem?_eq_getElem hlen]
    rfl
  · rw [toNat_ofNat_byte]
    exact le_of_mem_utf8EncodeChar hc (List.getElem_mem hlen)

theorem at?_eq_none (hk : k.In cs) (hr : k.rest = []) : cs.at? k.offset = none := by
  have h := at?_add hk 0
  rw [Nat.add_zero, hr] at h
  exact h

/-- **At a point, the byte of an ASCII character stands where this character does.** -/
theorem at?_eq_some_iff (hk : k.In cs) (hc : c.toNat < 128) :
    cs.at? k.offset = some c ↔ k.rest.head? = some c := by
  rcases hr : k.rest with _ | ⟨d, ds⟩
  · simp [at?_eq_none hk hr]
  · by_cases hd : d.toNat < 128
    · simp [at?_eq_some hk hr hd]
    · obtain ⟨x, hx, hge⟩ := exists_at? hk hr d.utf8Size_pos (Nat.le_of_not_lt hd)
      rw [Nat.add_zero] at hx
      rw [hx]
      constructor
      · intro h
        cases h
        omega
      · intro h
        cases h
        omega

theorem eq_iff_of_at? {x d : Char} (hk : k.In cs) (hr : k.rest = c :: ds) (hd : d.toNat < 128)
    (hx : cs.at? k.offset = some x) : x = d ↔ c = d := by
  have h := at?_eq_some_iff hk hd
  rwa [hx, hr, List.head?_cons, Option.some.injEq, Option.some.injEq] at h

/-- A function of an offset for which a byte that is not ASCII makes no difference. -/
def PassesOver (cs : Text) (f : Nat → α) : Prop :=
  ∀ i x, cs.at? i = some x → 128 ≤ x.toNat → f i = f (i + 1)

/-- **The rest of a character is passed over**, from any of its bytes on that is not ASCII. -/
theorem PassesOver.eq (hf : cs.PassesOver f) (hk : k.In cs) (hr : k.rest = c :: ds) {j : Nat}
    (hj : j ≤ c.utf8Size) (hpos : 0 < j ∨ 128 ≤ c.toNat) :
    f (k.offset + j) = f (k.offset + c.utf8Size) := by
  obtain ⟨n, hn⟩ : ∃ n, n = c.utf8Size - j := ⟨_, rfl⟩
  induction n generalizing j with
  | zero =>
    have hlast : j = c.utf8Size := by omega
    rw [hlast]
  | succ n ih =>
    have hascii : 128 ≤ c.toNat := by
      by_contra hlt
      have h1 := utf8Size_of_lt (Nat.lt_of_not_le hlt)
      omega
    obtain ⟨x, hx, hge⟩ := exists_at? hk hr (j := j) (by omega) hascii
    rw [hf _ x hx hge, Nat.add_assoc]
    exact ih (by omega) (Or.inl (Nat.succ_pos j)) (by omega)

/-! ### Walking over bytes -/

/-- The offset behind bytes that satisfy `p`. -/
def skipBytes (p : Char → Bool) (cs : Text) (i : Nat) : Nat :=
  match h : cs.at? i with
  | some c => if p c then skipBytes p cs (i + 1) else i
  | none => i
termination_by cs.size - i
decreasing_by
  have := lt_size_of_at? h
  omega

/-- A test for ASCII characters says the same of a byte and of the character that stands there. -/
theorem any_at? {p : Char → Bool} (hp : ∀ c : Char, 128 ≤ c.toNat → p c = false) (hk : k.In cs) :
    (cs.at? k.offset).any p = k.rest.head?.any p := by
  rcases hr : k.rest with _ | ⟨d, ds⟩
  · rw [at?_eq_none hk hr]
    rfl
  · by_cases hd : d.toNat < 128
    · rw [at?_eq_some hk hr hd]
      rfl
    · have hge := Nat.le_of_not_lt hd
      obtain ⟨x, hx, hxge⟩ := exists_at? hk hr d.utf8Size_pos hge
      rw [Nat.add_zero] at hx
      rw [hx, List.head?_cons, Option.any_some, Option.any_some, hp x hxge, hp d hge]

theorem skipBytes_of_any {p : Char → Bool} {i : Nat} (h : (cs.at? i).any p) :
    skipBytes p cs i = skipBytes p cs (i + 1) := by
  rw [Option.any_eq_true] at h
  obtain ⟨x, hx, hpx⟩ := h
  rw [skipBytes]
  split
  · next y hy =>
    obtain rfl : x = y := Option.some.inj (hx.symm.trans hy)
    rw [if_pos hpx]
  · next hy => simp [hy] at hx

theorem skipBytes_of_not_any {p : Char → Bool} {i : Nat} (h : ¬ (cs.at? i).any p) :
    skipBytes p cs i = i := by
  rw [skipBytes]
  split
  · next x hx =>
    rw [hx, Option.any_some] at h
    rw [if_neg h]
  · rfl

/-- A walk over ASCII characters is the same byte by byte. -/
theorem skipBytes_eq {p : Char → Bool} (hp : ∀ c : Char, 128 ≤ c.toNat → p c = false)
    (hk : k.In cs) : skipBytes p cs k.offset = (k.skipWhile p).offset := by
  obtain ⟨o, rest⟩ := k
  rw [Cursor.skipWhile]
  induction rest generalizing o with
  | nil =>
    have hany := any_at? hp hk
    rw [skipBytes_of_not_any (by rw [hany]; simp), Cursor.skipWhile.go]
  | cons d rest ih =>
    have hany := any_at? hp hk
    rw [List.head?_cons, Option.any_some] at hany
    rw [Cursor.skipWhile.go]
    by_cases hpd : p d
    · have hd : d.toNat < 128 := by
        by_contra hge
        rw [hp d (Nat.le_of_not_lt hge)] at hpd
        cases hpd
      rw [if_pos hpd, skipBytes_of_any (hany.trans hpd),
        ← ih (o + d.utf8Size) (hk.passes (Cursor.passes_one o d rest)), utf8Size_of_lt hd]
    · rw [if_neg hpd, skipBytes_of_not_any (by rwa [hany])]

end

end Text

end DesignLint
