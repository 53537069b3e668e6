/-
# The text of a value is read as the value

`Json.text` writes a value, and the reader goes through a text one character at a time.  For every
value whose numbers are integers of the two 64-bit ranges, and in which no more containers are
nested than the reader takes in (`IsPlain`), the reader comes out with the written form of that
value, and nothing stands behind it (`Document.ofText_text`).

The proof follows the value (`reads_text`): the reader stands at a place where a value may come, and
behind the text of the value it has the value in the innermost open container.  What stands in the
way is that a number and a literal end only with the character behind them; `Reaches` counts such a
word as complete, and whatever comes next bears that out (`Reaches.step_mark`, `Reaches.finish`).
-/
import AppWatch.Json.Printer
import AppWatch.Json.Reader
import Mathlib.Data.List.TakeWhile

namespace AppWatch

namespace Json

/-! ## 1. Numerals -/

namespace Numeral

open Nat (toDigits)

theorem head?_toDigits_ne {n : Nat} (hn : n ≠ 0) : (toDigits 10 n).head? ≠ some '0' := by
  induction n using Nat.strongRecOn with
  | ind n ih =>
    rcases Nat.lt_or_ge n 10 with hlt | hge
    · rw [Nat.toDigits_of_lt_base hlt]
      intro hzero
      have hvalue := Nat.toNat_digitChar_of_lt_ten hlt
      rw [Option.some.inj hzero] at hvalue
      exact hn (by simpa using hvalue)
    · rw [Nat.toDigits_of_base_le (by decide) hge, List.head?_append,
        Option.or_of_isSome (by simp [List.isSome_head?, Nat.toDigits_ne_nil])]
      exact ih (n / 10) (Nat.div_lt_self (by omega) (by decide)) (by omega)

theorem gathered_toDigits {n : Nat} (hn : n ≤ limit) :
    (toDigits 10 n).foldl Gathered.integerDigit {} = ⟨n, 0, false⟩ := by
  -- the last digit comes behind the digits of the tenth part, which have been gathered in full
  induction n using Nat.strongRecOn with
  | ind n ih =>
    have hlast {m d : Nat} (hd : d < 10) (hm : m * 10 + d ≤ limit) :
        Gathered.integerDigit ⟨m, 0, false⟩ (Nat.digitChar d) = ⟨m * 10 + d, 0, false⟩ := by
      have hvalue : digitValue (Nat.digitChar d) = d := Nat.toNat_digitChar_sub_48_of_lt_ten hd
      simp [Gathered.integerDigit, hvalue, hm]
    rcases Nat.lt_or_ge n 10 with hlt | hge
    · rw [Nat.toDigits_of_lt_base hlt]
      simpa using hlast (m := 0) hlt (by simpa using hn)
    · rw [Nat.toDigits_of_base_le (by decide) hge, List.foldl_append,
        ih (n / 10) (Nat.div_lt_self (by omega) (by decide)) (by omega)]
      have := hlast (m := n / 10) (Nat.mod_lt n (by decide)) (by omega)
      simpa [Nat.div_add_mod'] using this

/-- Digits of which the first is no needless zero. -/
structure IsWhole (ds : List Char) : Prop where
  nonempty : ds ≠ []
  digits : ∀ c ∈ ds, c.isDigit = true
  leading : ds.head? = some '0' → ds.length = 1

theorem isWhole_toDigits (n : Nat) : IsWhole (toDigits 10 n) where
  nonempty := Nat.toDigits_ne_nil
  digits _ := Nat.isDigit_of_mem_toDigits (by decide) (by decide)
  leading hhead := by
    rcases Nat.eq_zero_or_pos n with rfl | hpos
    · rfl
    · exact absurd hhead (head?_toDigits_ne (Nat.ne_of_gt hpos))

namespace IsWhole

variable {ds : List Char}

theorem takeWhile_eq (h : IsWhole ds) : ds.takeWhile Char.isDigit = ds :=
  List.takeWhile_eq_self_iff.mpr h.digits

theorem dropWhile_eq (h : IsWhole ds) : ds.dropWhile Char.isDigit = [] :=
  List.dropWhile_eq_nil_iff.mpr h.digits

theorem not_refused (h : IsWhole ds) :
    ¬(ds.isEmpty ∨ (ds.head? = some '0' ∧ ds.length ≠ 1)) := by
  rintro (hempty | ⟨hhead, hlen⟩)
  · exact h.nonempty (List.isEmpty_iff.mp hempty)
  · exact hlen (h.leading hhead)

theorem ne_minus (h : IsWhole ds) (cs : List Char) : ds ≠ '-' :: cs := by
  rintro rfl
  exact absurd (h.digits '-' List.mem_cons_self) (by decide)

end IsWhole

theorem parts?_whole {ds : List Char} (h : IsWhole ds) :
    parts? ds = some ⟨false, ds, none, none⟩ := by
  unfold parts?
  split
  next negative cs hsign =>
    obtain ⟨rfl, rfl⟩ : negative = false ∧ cs = ds := by
      split at hsign
      · next ds => exact absurd rfl (h.ne_minus ds)
      · simpa [eq_comm] using hsign
    simp only [h.takeWhile_eq, h.dropWhile_eq, if_neg h.not_refused, exponentPart?,
      Option.map_some]

theorem parts?_minus {ds : List Char} (h : IsWhole ds) :
    parts? ('-' :: ds) = some ⟨true, ds, none, none⟩ := by
  simp only [parts?, h.takeWhile_eq, h.dropWhile_eq, if_neg h.not_refused, exponentPart?,
    Option.map_some]

theorem number?_toDigits {n : Nat} (hn : n ≤ limit) :
    number? (toDigits 10 n) = some (.int n) := by
  rw [number?, parts?_whole (isWhole_toDigits n)]
  simp [Parts.value?, gathered_toDigits hn]

theorem number?_minus {n : Nat} (hpos : 0 < n) (hn : n ≤ 1 <<< 63) :
    number? ('-' :: toDigits 10 n) = some (.int (-n)) := by
  have hlimit : n ≤ limit := hn.trans (by decide)
  rw [number?, parts?_minus (isWhole_toDigits n)]
  simp only [Option.bind_some, Parts.value?, gathered_toDigits hlimit]
  rw [if_neg (by decide), if_neg (by decide), if_pos ⟨hpos, hn⟩]

/-- The decimal digits of an integer. -/
def integerChars (i : Int) : List Char :=
  if 0 ≤ i then toDigits 10 i.toNat else '-' :: toDigits 10 (-i).toNat

theorem toList_toString (i : Int) : (toString i).toList = integerChars i := by
  rw [Int.toString_eq_repr, Int.repr_eq_if, integerChars]
  split
  · exact Nat.toList_repr
  · rw [String.toList_append, Nat.toList_repr]
    rfl

theorem number?_integerChars {i : Int} (hmin : -(1 <<< 63 : Nat) ≤ i) (hmax : i ≤ limit) :
    number? (integerChars i) = some (.int i) := by
  unfold integerChars
  split
  · next hpos =>
    rw [number?_toDigits (by omega), Int.toNat_of_nonneg hpos]
  · next hneg =>
    rw [number?_minus (by omega) (by omega), Int.toNat_of_nonneg (by omega), Int.neg_neg]

end Numeral

/-! ## 2. Reading on -/

/-- The reader goes over characters and does not stop. -/
def Reads (r : Reading) (cs : List Char) (r' : Reading) : Prop :=
  cs.foldlM Reading.step r = .ok r'

namespace Reads

variable {r r' r'' : Reading} {c : Char} {cs cs' : List Char}

theorem nil (r : Reading) : Reads r [] r := rfl

theorem cons (h : r.step c = .ok r') (ht : Reads r' cs r'') : Reads r (c :: cs) r'' := by
  rw [Reads, List.foldlM_cons, h]
  exact ht

theorem single (h : r.step c = .ok r') : Reads r [c] r' := cons h (nil r')

theorem append (h : Reads r cs r') (h' : Reads r' cs' r'') : Reads r (cs ++ cs') r'' := by
  rw [Reads, List.foldlM_append, h]
  exact h'

end Reads

/-! ## 3. Texts between quotes -/

variable {b : Builder}

theorem hexDigit?_digitChar {d : Nat} (hd : d < 16) :
    Text.hexDigit? (Nat.digitChar d) = some d := by
  have : ∀ d < 16, Text.hexDigit? (Nat.digitChar d) = some d := by decide
  exact this d hd

theorem utf8Size_digitChar {d : Nat} (hd : d < 16) : (Nat.digitChar d).utf8Size = 1 := by
  have : ∀ d < 16, (Nat.digitChar d).utf8Size = 1 := by decide
  exact this d hd

theorem step_hexDigit {done : QuotedSoFar} {left code d : Nat} (hd : d < 16) (hleft : 1 < left) :
    Reading.step ⟨.hex done left (some code) none, b⟩ (Nat.digitChar d) =
      .ok ⟨.hex done (left - 1) (some (code * 16 + d)) none, b⟩ := by
  simp [Reading.step, Reading.hexDigit, utf8Size_digitChar hd, hexDigit?_digitChar hd, hleft]

theorem step_lastHexDigit {done : QuotedSoFar} {code d : Nat} (hd : d < 16) :
    Reading.step ⟨.hex done 1 (some code) none, b⟩ (Nat.digitChar d) =
      .ok ⟨Reading.finishHex done (code * 16 + d) none, b⟩ := by
  simp [Reading.step, Reading.hexDigit, utf8Size_digitChar hd, hexDigit?_digitChar hd]

/-- An escape is read as the character it stands for. -/
theorem reads_escapeChar (b : Builder) (done : List Char) (c : Char) :
    Reads ⟨.string (some done), b⟩ (escapeChar c) ⟨.string (some (c :: done)), b⟩ := by
  unfold escapeChar
  split_ifs with hquote hslash hb hf hn hr ht hcontrol
  · subst hquote
    rfl
  · subst hslash
    rfl
  · subst hb
    rfl
  · subst hf
    rfl
  · subst hn
    rfl
  · subst hr
    rfl
  · subst ht
    rfl
  · have hhigh : c.toNat / 16 < 16 := by omega
    have hlow : c.toNat % 16 < 16 := Nat.mod_lt _ (by decide)
    have hcode : (0 * 16 + c.toNat / 16) * 16 + c.toNat % 16 = c.toNat := by omega
    refine .cons rfl (.cons rfl (.cons (step_hexDigit (d := 0) (by decide) (by decide))
      (.cons (step_hexDigit (d := 0) (by decide) (by decide))
        (.cons (step_hexDigit hhigh (by decide)) (.single ?_)))))
    rw [step_lastHexDigit hlow, hcode, Reading.finishHex,
      if_neg (by omega), if_neg (by omega), Option.map_some, Char.ofNat_toNat]
  · refine .single ?_
    simp [Reading.step, Reading.inside, hquote, hslash, hcontrol]

theorem reads_escapeChars (b : Builder) (cs done : List Char) :
    Reads ⟨.string (some done), b⟩ (cs.flatMap escapeChar)
      ⟨.string (some (cs.reverse ++ done)), b⟩ := by
  induction cs generalizing done with
  | nil => exact .nil _
  | cons c cs ih =>
    rw [List.flatMap_cons, List.reverse_cons, List.append_assoc]
    exact (reads_escapeChar b done c).append (ih (c :: done))

/-- A quoted text is read as the text. -/
theorem reads_quote (h : (b.takesValue || b.takesName) = true) (s : String) :
    Reads ⟨.between, b⟩ (quote s).toList ⟨.between, b.text (.ok s)⟩ := by
  have hopen : Reads ⟨.between, b⟩ ['"'] ⟨.string (some []), b⟩ :=
    .single (by simp [Reading.step, Reading.outside, isBlank, h])
  have hclose : Reads ⟨.string (some (s.toList.reverse ++ [])), b⟩ ['"']
      ⟨.between, b.text (.ok s)⟩ :=
    .single (by simp [Reading.step, Reading.inside, Reading.closed])
  have := (hopen.append (reads_escapeChars b s.toList [])).append hclose
  simpa [quote] using this

/-! ## 4. Words -/

/-- The reader has come to a builder; a word that it still is in counts as complete. -/
inductive Reaches : Reading → Builder → Prop
  | between (b : Builder) : Reaches ⟨.between, b⟩ b
  | word {b : Builder} {done : List Char} {w : Written} :
      scalar? done.reverse = some w → Reaches ⟨.word done, b⟩ (b.complete w)

namespace Reaches

variable {r : Reading} {c : Char} {w : Written}

/-- A mark ends the word before it. -/
theorem step_mark (h : Reaches r b) (hmark : (mark? c).isSome) :
    r.step c = Reading.step ⟨.between, b⟩ c := by
  cases h with
  | between => rfl
  | word hw =>
    have hends : isBlank c ∨ c = '"' ∨ (mark? c).isSome := .inr (.inr hmark)
    simp only [Reading.step, if_pos hends, Reading.finishWord, hw]
    rfl

/-- So does the end of the text. -/
theorem finish (h : Reaches r b) (hresult : b.result = some w) : r.finish = ⟨w, false⟩ := by
  cases h with
  | between => simp [Reading.finish, hresult]
  | word hw => simp [Reading.finish, hw, hresult]

end Reaches

/-- Whether a character can stand in a word. -/
def isWordChar (c : Char) : Bool := !isBlank c && c != '"' && (mark? c).isNone

theorem reads_wordTail {cs : List Char} (h : ∀ c ∈ cs, isWordChar c = true) (b : Builder)
    (done : List Char) : Reads ⟨.word done, b⟩ cs ⟨.word (cs.reverse ++ done), b⟩ := by
  induction cs generalizing done with
  | nil => exact .nil _
  | cons c cs ih =>
    obtain ⟨hc, hcs⟩ := List.forall_mem_cons.mp h
    have hgoes : ¬(isBlank c ∨ c = '"' ∨ (mark? c).isSome) := by
      simpa [isWordChar, and_assoc] using hc
    rw [List.reverse_cons, List.append_assoc]
    exact .cons (by simp only [Reading.step, if_neg hgoes]) (ih hcs (c :: done))

/-- A word is read as the scalar it is. -/
theorem reads_word {word : List Char} {w : Written} (hne : word ≠ [])
    (h : word.all isWordChar = true) (hw : scalar? word = some w) (hb : b.takesValue = true) :
    ∃ r, Reads ⟨.between, b⟩ word r ∧ Reaches r (b.complete w) := by
  obtain ⟨c, cs, rfl⟩ := List.exists_cons_of_ne_nil hne
  obtain ⟨hc, hcs⟩ := List.forall_mem_cons.mp (List.all_eq_true.mp h)
  simp only [isWordChar, Bool.and_eq_true, Bool.not_eq_true', bne_iff_ne, ne_eq,
    Option.isNone_iff_eq_none] at hc
  obtain ⟨⟨hblank, hquote⟩, hmark⟩ := hc
  have hopen : Reading.step ⟨.between, b⟩ c = .ok ⟨.word [c], b⟩ := by
    simp [Reading.step, Reading.outside, hblank, hquote, hmark, hb]
  exact ⟨_, .cons hopen (reads_wordTail hcs b [c]), .word (by simpa using hw)⟩

theorem isWordChar_of_isDigit {c : Char} (h : c.isDigit = true) : isWordChar c = true := by
  have hne (x : Char) (hx : x.isDigit = false) : c ≠ x := by
    rintro rfl
    exact absurd h (by simp [hx])
  have hmark : mark? c = none := by
    unfold mark?
    split <;> first | rfl | contradiction
  simp [isWordChar, isBlank, hmark, hne ' ' rfl, hne '\n' rfl, hne '\r' rfl, hne '\t' rfl,
    hne '"' rfl]

theorem isWordChar_integerChars {i : Int} :
    ∀ c ∈ Numeral.integerChars i, isWordChar c = true := by
  have hdigits (n : Nat) : ∀ c ∈ Nat.toDigits 10 n, isWordChar c = true := fun c hc =>
    isWordChar_of_isDigit ((Numeral.isWhole_toDigits n).digits c hc)
  unfold Numeral.integerChars
  split
  · exact hdigits _
  · exact List.forall_mem_cons.mpr ⟨rfl, hdigits _⟩

theorem scalar?_of_number? {word : List Char} {n : JsonNumber} (h : number? word = some n) :
    scalar? word = some (.num n) := by
  obtain ⟨p, hp, hn⟩ := Option.bind_eq_some_iff.mp h
  have hne {literal : List Char} (hliteral : number? literal = none) : word ≠ literal := by
    rintro rfl
    exact absurd h (by simp [hliteral])
  rw [scalar?, if_neg (hne rfl), if_neg (hne rfl), if_neg (hne rfl), hp]
  simp [hn]

/-! ## 5. Values -/

mutual

/-- A value that can be written and read again: of its numbers each is an integer of the two 64-bit
ranges, and at most `d` containers are nested. -/
def IsPlain : Nat → Json → Prop
  | _, null | _, bool _ | _, str _ => True
  | _, num (.int i) => -(1 <<< 63 : Nat) ≤ i ∧ i ≤ Numeral.limit
  | _, num (.float _) => False
  | d, arr items => 0 < d ∧ ArePlainItems (d - 1) items
  | d, obj members => 0 < d ∧ ArePlainMembers (d - 1) members

/-- The items of an array can be written and read again. -/
def ArePlainItems : Nat → List Json → Prop
  | _, [] => True
  | d, j :: js => IsPlain d j ∧ ArePlainItems d js

/-- The members of an object can be written and read again. -/
def ArePlainMembers : Nat → List (String × Json) → Prop
  | _, [] => True
  | d, (_, j) :: js => IsPlain d j ∧ ArePlainMembers d js

end

theorem arePlainItems_iff {d : Nat} {js : List Json} :
    ArePlainItems d js ↔ ∀ j ∈ js, IsPlain d j := by
  induction js with
  | nil => simp [ArePlainItems]
  | cons j js ih => simp [ArePlainItems, ih]

theorem arePlainMembers_iff {d : Nat} {js : List (String × Json)} :
    ArePlainMembers d js ↔ ∀ m ∈ js, IsPlain d m.2 := by
  induction js with
  | nil => simp [ArePlainMembers]
  | cons m js ih => simp [ArePlainMembers, ih]

/-- A value may come next, there is a place for it, and `d` more containers may be opened. -/
structure Builder.IsOpen (b : Builder) (d : Nat) : Prop where
  takesValue : b.takesValue = true
  hasPlace : ∀ done fs, b.frames ≠ .members done :: fs
  room : b.frames.length + d ≤ maxDepth

namespace Builder.IsOpen

variable {d : Nat}

theorem enclose_eq (h : b.IsOpen d) (hd : 0 < d) (w : Written) :
    Builder.enclose b.frames w = b.complete w := by
  have hshallow : Builder.isShallow b.frames = true := by
    have := h.room
    rw [Builder.isShallow, List.isEmpty_iff, List.drop_eq_nil_iff]
    omega
  rw [Builder.enclose, if_pos hshallow]
  obtain ⟨frames, awaited, result⟩ := b
  rcases frames with - | ⟨done | done | ⟨done, name⟩, fs⟩
  · rfl
  · rfl
  · exact absurd rfl (h.hasPlace done fs)
  · rfl

theorem text_eq (h : b.IsOpen d) (s : String) : b.text (.ok s) = b.complete (.str s) := by
  have hname : b.takesName = false := by
    have := h.takesValue
    unfold Builder.takesValue at this
    unfold Builder.takesName
    cases hb : b.awaited <;> simp_all
  simp [Builder.text, hname]

/-- The reader inside an array or an object that has just been opened. -/
theorem reads_open (h : b.IsOpen d) :
    Reads ⟨.between, b⟩ ['['] ⟨.between, ⟨.items [] :: b.frames, .valueOrClose, none⟩⟩ ∧
      Reads ⟨.between, b⟩ ['\x7b'] ⟨.between, ⟨.members [] :: b.frames, .nameOrClose, none⟩⟩ := by
  constructor
  all_goals
    refine .single ?_
    simp [Reading.step, Reading.outside, isBlank, mark?, Builder.mark, h.takesValue]

end Builder.IsOpen

theorem itemTexts_ne_nil {js : List Json} (h : js ≠ []) : itemTexts js ≠ [] := by
  obtain ⟨j, js, rfl⟩ := List.exists_cons_of_ne_nil h
  simp [itemTexts]

theorem memberTexts_ne_nil {js : List (String × Json)} (h : js ≠ []) : memberTexts js ≠ [] := by
  obtain ⟨⟨name, j⟩, js, rfl⟩ := List.exists_cons_of_ne_nil h
  simp [memberTexts]

mutual

/-- The text of a value is read as the value. -/
theorem reads_text : (j : Json) → (d : Nat) → (b : Builder) → IsPlain d j → b.IsOpen d →
    ∃ r, Reads ⟨.between, b⟩ j.text.toList r ∧ Reaches r (b.complete j.written)
  | .null, _, _, _, hb => reads_word (by decide) (by decide) rfl hb.takesValue
  | .bool true, _, _, _, hb => reads_word (by decide) (by decide) rfl hb.takesValue
  | .bool false, _, _, _, hb => reads_word (by decide) (by decide) rfl hb.takesValue
  | .num (.int i), _, _, hj, hb => by
    have hnumber := Numeral.number?_integerChars hj.1 hj.2
    rw [text, numberText, Numeral.toList_toString]
    refine reads_word ?_ (List.all_eq_true.mpr isWordChar_integerChars)
      (scalar?_of_number? hnumber) hb.takesValue
    rintro hnil
    rw [hnil] at hnumber
    contradiction
  | .num (.float _), _, _, hj, _ => hj.elim
  | .str s, _, b, _, hb => by
    refine ⟨_, reads_quote (by simp [hb.takesValue]) s, ?_⟩
    rw [hb.text_eq]
    exact .between _
  | .arr items, d, b, hj, hb => by
    -- the closing mark puts the array into what was open before, which the reader checks for depth
    rw [← hb.enclose_eq hj.1]
    have hchars : (text (.arr items)).toList =
        '[' :: ((",".intercalate (itemTexts items)).toList ++ [']']) := by
      simp [text]
    rw [hchars]
    by_cases hne : items = []
    · subst hne
      exact ⟨_, hb.reads_open.1.append (.single rfl), .between _⟩
    · obtain ⟨r, hreads, hr⟩ := reads_itemTexts items (d - 1)
        ⟨.items [] :: b.frames, .valueOrClose, none⟩ [] b.frames hne hj.2 rfl
        ⟨rfl, by simp, by have := hb.room; have := hj.1; simp; omega⟩
      refine ⟨_, hb.reads_open.1.append (hreads.append (.single ?_)), .between _⟩
      rw [hr.step_mark rfl]
      simp [Reading.step, Reading.outside, isBlank, mark?, Builder.mark, written]
  | .obj members, d, b, hj, hb => by
    rw [← hb.enclose_eq hj.1]
    have hchars : (text (.obj members)).toList =
        '\x7b' :: ((",".intercalate (memberTexts members)).toList ++ ['\x7d']) := by
      simp [text]
    rw [hchars]
    by_cases hne : members = []
    · subst hne
      exact ⟨_, hb.reads_open.2.append (.single rfl), .between _⟩
    · obtain ⟨r, hreads, hr⟩ := reads_memberTexts members (d - 1)
        ⟨.members [] :: b.frames, .nameOrClose, none⟩ [] b.frames hne hj.2 rfl rfl
        (by have := hb.room; have := hj.1; simp; omega)
      refine ⟨_, hb.reads_open.2.append (hreads.append (.single ?_)), .between _⟩
      rw [hr.step_mark rfl]
      simp [Reading.step, Reading.outside, isBlank, mark?, Builder.mark, written]

/-- The texts of items are read as the items. -/
theorem reads_itemTexts : (js : List Json) → (d : Nat) → (b : Builder) → (done : List Written) →
    (fs : List Frame) → js ≠ [] → ArePlainItems d js → b.frames = .items done :: fs →
      b.IsOpen d →
        ∃ r, Reads ⟨.between, b⟩ (",".intercalate (itemTexts js)).toList r ∧
          Reaches r ⟨.items ((writtenItems js).reverse ++ done) :: fs, .separator, none⟩
  | [], _, _, _, _, hne, _, _, _ => absurd rfl hne
  | j :: js, d, b, done, fs, _, hj, hframes, hb => by
    obtain ⟨r, hreads, hr⟩ := reads_text j d b hj.1 hb
    have hcomplete :
        b.complete j.written = ⟨.items (j.written :: done) :: fs, .separator, none⟩ := by
      rw [Builder.complete, hframes]
    rw [hcomplete] at hr
    by_cases hne : js = []
    · subst hne
      exact ⟨r, by simpa [itemTexts] using hreads, by simpa [writtenItems] using hr⟩
    · obtain ⟨r', hreads', hr'⟩ := reads_itemTexts js d
        ⟨.items (j.written :: done) :: fs, .value, none⟩ (j.written :: done) fs hne hj.2 rfl
        ⟨rfl, by simp, by simpa [hframes] using hb.room⟩
      have hcomma : Reads r [','] ⟨.between, ⟨.items (j.written :: done) :: fs, .value, none⟩⟩ :=
        .single (by rw [hr.step_mark rfl]; rfl)
      have htexts : itemTexts js ≠ [] := itemTexts_ne_nil hne
      refine ⟨r', ?_, by simpa [writtenItems] using hr'⟩
      have := hreads.append (hcomma.append hreads')
      simpa [itemTexts, String.intercalate_cons_of_ne_nil htexts] using this

/-- The texts of members are read as the members. -/
theorem reads_memberTexts : (js : List (String × Json)) → (d : Nat) → (b : Builder) →
    (done : List (WrittenName × Written)) → (fs : List Frame) → js ≠ [] → ArePlainMembers d js →
      b.frames = .members done :: fs → b.takesName = true → b.frames.length + d ≤ maxDepth →
        ∃ r, Reads ⟨.between, b⟩ (",".intercalate (memberTexts js)).toList r ∧
          Reaches r ⟨.members ((writtenMembers js).reverse ++ done) :: fs, .separator, none⟩
  | [], _, _, _, _, hne, _, _, _, _ => absurd rfl hne
  | (name, j) :: js, d, b, done, fs, _, hj, hframes, hname, hroom => by
    have hquote := reads_quote (by simp [hname]) name (b := b)
    rw [Builder.text, if_pos hname, Builder.named, hframes] at hquote
    have hcolon : Reads ⟨.between, ⟨.member done (.ok name) :: fs, .colon, none⟩⟩ [':']
        ⟨.between, ⟨.member done (.ok name) :: fs, .value, none⟩⟩ := .single rfl
    obtain ⟨r, hreads, hr⟩ := reads_text j d ⟨.member done (.ok name) :: fs, .value, none⟩ hj.1
      ⟨rfl, by simp, by simpa [hframes] using hroom⟩
    replace hr : Reaches r ⟨.members ((.ok name, j.written) :: done) :: fs, .separator, none⟩ := hr
    have hfirst := (hquote.append hcolon).append hreads
    by_cases hne : js = []
    · subst hne
      exact ⟨r, by simpa [memberTexts] using hfirst, by simpa [writtenMembers] using hr⟩
    · obtain ⟨r', hreads', hr'⟩ := reads_memberTexts js d
        ⟨.members ((.ok name, j.written) :: done) :: fs, .name, none⟩
        ((.ok name, j.written) :: done) fs hne hj.2 rfl rfl (by simpa [hframes] using hroom)
      have hcomma : Reads r [','] ⟨.between, ⟨.members ((.ok name, j.written) :: done) :: fs,
          .name, none⟩⟩ := .single (by rw [hr.step_mark rfl]; rfl)
      refine ⟨r', ?_, by simpa [writtenMembers] using hr'⟩
      have := hfirst.append (hcomma.append hreads')
      simpa [memberTexts, String.intercalate_cons_of_ne_nil (memberTexts_ne_nil hne)] using this

end

/-- The text of a plain value is read as that value, and nothing stands behind it. -/
theorem Document.ofText_text {j : Json} (h : IsPlain maxDepth j) :
    Document.ofText j.text = ⟨j.written, false⟩ := by
  obtain ⟨r, hreads, hr⟩ := reads_text j maxDepth {} h ⟨rfl, by simp, by simp⟩
  have hrun : j.text.toList.foldlM Reading.step {} = .ok r := hreads
  rw [Document.ofText, hrun]
  exact hr.finish rfl

end Json

end AppWatch
