import CallAlign.Json

/-!
# Reading JSON back

The text of a value tells the value, whatever follows it.  The first character tells what kind of
value there is (`exists_first`).  A string is read character by character, by an inverse of what is
written (`unescape`).  A number ends where no digit follows, which is why values are read only
before a text that does not go on with a numeral (`EndsNumeral`).  The entries of a list or of an
object are separated by commas, and a bracket that begins no entry ends them
(`separated_append_inj`).

    write_append_inj      : a value and what follows it are read from the text in one way
    lineFeed_notMem_write : a value stands on one line
-/

namespace CallAlign

namespace Json

/-- What holds of a value whenever it holds of its parts holds of every value. -/
theorem induction_on_parts {motive : Json → Prop} (null : motive .null)
    (bool : ∀ b, motive (.bool b)) (int : ∀ n, motive (.int n)) (str : ∀ s, motive (.str s))
    (arr : ∀ items, (∀ v ∈ items, motive v) → motive (.arr items))
    (obj : ∀ members, (∀ m ∈ members, motive m.2) → motive (.obj members)) (v : Json) :
    motive v := by
  refine @Json.rec motive (fun items => ∀ v ∈ items, motive v)
    (fun members => ∀ m ∈ members, motive m.2) (fun m => motive m.2) null bool int str arr obj
    ?_ ?_ ?_ ?_ ?_ v
  · intro v hv
    cases hv
  · intro v items hv hitems
    exact List.forall_mem_cons.2 ⟨hv, hitems⟩
  · intro m hm
    cases hm
  · intro m members hm hmembers
    exact List.forall_mem_cons.2 ⟨hm, hmembers⟩
  · intro k v hv
    exact hv

/-! ## Strings -/

/-- The value of a hexadecimal digit in lower case. -/
def hexValue (c : Char) : Nat := if c.isDigit then c.toNat - 48 else c.toNat - 87

/-- One character of a string, read from the front of a text, and the text behind it; `none` where
the string ends. -/
def unescape : List Char → Option (Char × List Char)
  | '\\' :: 'u' :: '0' :: '0' :: high :: low :: rest =>
    some (Char.ofNat (16 * hexValue high + hexValue low), rest)
  | '\\' :: 'n' :: rest => some ('\n', rest)
  | '\\' :: 'r' :: rest => some ('\r', rest)
  | '\\' :: 't' :: rest => some ('\t', rest)
  | '\\' :: 'b' :: rest => some ('\x08', rest)
  | '\\' :: 'f' :: rest => some ('\x0c', rest)
  | '\\' :: c :: rest => some (c, rest)
  | '"' :: _ => none
  | c :: rest => some (c, rest)
  | [] => none

theorem hexValue_digitChar : ∀ n < 32,
    16 * hexValue (Nat.digitChar (n / 16)) + hexValue (Nat.digitChar (n % 16)) = n := by
  decide

/-- What is written for a character is read as the character. -/
theorem unescape_escape_append (c : Char) (rest : List Char) :
    unescape (escape c ++ rest) = some (c, rest) := by
  unfold escape
  split
  all_goals try rfl
  split
  · next hcontrol =>
    have hvalue := hexValue_digitChar c.toNat hcontrol
    simp only [List.cons_append, List.nil_append, unescape, hvalue, Char.ofNat_toNat]
  · -- a character that is written as it stands is no quote and no backslash
    rw [List.singleton_append, unescape.eq_def]
    split <;> simp_all

theorem flatMap_escape_append_inj {cs ds r r' : List Char}
    (h : cs.flatMap escape ++ '"' :: r = ds.flatMap escape ++ '"' :: r') : cs = ds ∧ r = r' := by
  have hend (r : List Char) : unescape ('"' :: r) = none := rfl
  induction cs generalizing ds with
  | nil =>
    cases ds with
    | nil => simpa using h
    | cons d ds =>
      have h := congrArg unescape h
      rw [List.flatMap_cons, List.append_assoc, unescape_escape_append] at h
      cases h
  | cons c cs ih =>
    have h' := congrArg unescape h
    rw [List.flatMap_cons, List.append_assoc, unescape_escape_append] at h'
    cases ds with
    | nil => cases h'
    | cons d ds =>
      rw [List.flatMap_cons, List.append_assoc, unescape_escape_append] at h'
      simp only [Option.some.injEq, Prod.mk.injEq] at h'
      obtain ⟨rfl, hrest⟩ := h'
      obtain ⟨rfl, rfl⟩ := ih hrest
      exact ⟨rfl, rfl⟩

theorem digitChar_ne_lineFeed : ∀ n < 32,
    Nat.digitChar (n / 16) ≠ '\n' ∧ Nat.digitChar (n % 16) ≠ '\n' := by
  decide

theorem lineFeed_notMem_escape (c : Char) : '\n' ∉ escape c := by
  unfold escape
  split
  all_goals try decide
  next hlf _ _ _ _ =>
    split
    · next hcontrol =>
      have hdigits := digitChar_ne_lineFeed c.toNat hcontrol
      simp [hdigits.1.symm, hdigits.2.symm]
    · simpa using Ne.symm hlf

theorem lineFeed_notMem_quoted (s : String) : '\n' ∉ quoted s := by
  simp [quoted, lineFeed_notMem_escape]

/-- A string in quotes is read in one way. -/
theorem quoted_append_inj {s s' : String} {r r' : List Char}
    (h : quoted s ++ r = quoted s' ++ r') : s = s' ∧ r = r' := by
  unfold quoted at h
  simp only [List.cons_append, List.append_assoc, List.nil_append, List.cons.injEq,
    true_and] at h
  obtain ⟨hs, hr⟩ := flatMap_escape_append_inj h
  exact ⟨String.toList_inj.1 hs, hr⟩

/-! ## Numbers -/

/-- What a number is written with. -/
def isNumeral (c : Char) : Bool := c == '-' || c.isDigit

/-- A number that ends here does not go on. -/
def EndsNumeral (rest : List Char) : Prop := ∀ c ∈ rest.head?, isNumeral c = false

theorem endsNumeral_cons {c : Char} (h : isNumeral c = false) (rest : List Char) :
    EndsNumeral (c :: rest) := by
  intro d hd
  obtain rfl : c = d := by simpa using hd
  exact h

theorem isNumeral_of_mem_toString {n : Int} {c : Char} (h : c ∈ (toString n).toList) :
    isNumeral c = true := by
  have hdigits (m : Nat) (hm : c ∈ m.repr.toList) : isNumeral c = true := by
    rw [Nat.repr, String.toList_ofList] at hm
    simp [isNumeral, Nat.isDigit_of_mem_toDigits (by decide) (by decide) hm]
  cases n with
  | ofNat m => exact hdigits m h
  | negSucc m =>
    have h : c ∈ ("-" ++ (m + 1).repr).toList := h
    rw [String.toList_append, List.mem_append] at h
    rcases h with h | h
    · obtain rfl : c = '-' := by simpa using h
      rfl
    · exact hdigits (m + 1) h

/-- The text of an integer tells it. -/
theorem eq_of_toString_eq {m n : Int} (h : toString m = toString n) : m = n := by
  have hdigits {k l : Nat} (h : k.repr = l.repr) : k = l := by
    rw [Nat.repr_eq_ofList_toDigits, Nat.repr_eq_ofList_toDigits, String.ofList_inj] at h
    have hk := @Nat.ofDigitChars_ten_toDigits k
    rwa [h, Nat.ofDigitChars_ten_toDigits, eq_comm] at hk
  have hsign {k l : Nat} : k.repr ≠ "-" ++ l.repr := by
    intro h
    have hmem : '-' ∈ k.repr.toList := by simp [h]
    rw [Nat.repr_eq_ofList_toDigits, String.toList_ofList] at hmem
    cases Nat.isDigit_of_mem_toDigits (by decide) (by decide) hmem
  cases m with
  | ofNat k =>
    cases n with
    | ofNat l => exact congrArg Int.ofNat (hdigits h)
    | negSucc l => exact absurd h hsign
  | negSucc k =>
    cases n with
    | ofNat l => exact absurd h.symm hsign
    | negSucc l =>
      have h : "-" ++ k.succ.repr = "-" ++ l.succ.repr := h
      exact congrArg Int.negSucc (Nat.succ.inj (hdigits (String.append_right_inj _ |>.1 h)))

theorem toString_ne_nil (n : Int) : (toString n).toList ≠ [] := by
  cases n with
  | ofNat m =>
    have hdigits : m.repr.toList ≠ [] := by
      rw [Nat.repr, String.toList_ofList]
      exact Nat.toDigits_ne_nil
    exact hdigits
  | negSucc m =>
    have hsign : ("-" ++ (m + 1).repr).toList ≠ [] := by simp
    exact hsign

/-- A number is read in one way where it ends. -/
theorem toString_append_inj {m n : Int} {r r' : List Char} (hr : EndsNumeral r)
    (hr' : EndsNumeral r') (h : (toString m).toList ++ r = (toString n).toList ++ r') :
    m = n ∧ r = r' := by
  have htake {n : Int} {r : List Char} (hr : EndsNumeral r) :
      ((toString n).toList ++ r).takeWhile isNumeral = (toString n).toList := by
    have hnil : r.takeWhile isNumeral = [] := by
      cases r with
      | nil => rfl
      | cons c r => simp [hr c rfl]
    rw [List.takeWhile_append_of_pos fun c => isNumeral_of_mem_toString, hnil, List.append_nil]
  have htext := congrArg (List.takeWhile isNumeral) h
  rw [htake hr, htake hr'] at htext
  rw [htext] at h
  exact ⟨eq_of_toString_eq (String.toList_inj.1 htext), List.append_cancel_left h⟩

/-! ## Lists of entries -/

section

variable {α : Type} {f : α → List Char}

/-- The texts of some entries with commas between them. -/
def separated (f : α → List Char) : List α → List Char
  | [] => []
  | x :: xs => f x ++ xs.flatMap (',' :: f ·)

theorem mem_separated {xs : List α} {c : Char} (h : c ∈ separated f xs) :
    c = ',' ∨ ∃ x ∈ xs, c ∈ f x := by
  cases xs with
  | nil => cases h
  | cons x xs =>
    rw [separated, List.mem_append, List.mem_flatMap] at h
    rcases h with hx | ⟨y, hy, hcy⟩
    · exact .inr ⟨x, List.mem_cons_self, hx⟩
    · rcases List.mem_cons.1 hcy with hcomma | hcy
      · exact .inl hcomma
      · exact .inr ⟨y, List.mem_cons_of_mem _ hy, hcy⟩

/-- An entry that is read in one way from the front of any text in which a number would end behind
it. -/
def ReadInOneWay (f : α → List Char) (x : α) : Prop :=
  ∀ (y : α) (r r' : List Char), EndsNumeral r → EndsNumeral r' → f x ++ r = f y ++ r' →
    x = y ∧ r = r'

/-- Behind an entry stands a comma or the bracket at the end. -/
theorem endsNumeral_entries (xs : List α) {close : Char} (hclose : isNumeral close = false)
    (r : List Char) : EndsNumeral (xs.flatMap (',' :: f ·) ++ close :: r) := by
  cases xs with
  | nil => exact endsNumeral_cons hclose r
  | cons x xs => exact endsNumeral_cons rfl _

theorem entries_append_inj {xs ys : List α} {close : Char} {r r' : List Char}
    (hxs : ∀ x ∈ xs, ReadInOneWay f x) (hclose : isNumeral close = false) (hcomma : close ≠ ',')
    (h : xs.flatMap (',' :: f ·) ++ close :: r = ys.flatMap (',' :: f ·) ++ close :: r') :
    xs = ys ∧ r = r' := by
  induction xs generalizing ys with
  | nil =>
    cases ys with
    | nil => simpa using h
    | cons y ys =>
      have hhead := (List.cons.inj h).1
      exact absurd hhead hcomma
  | cons x xs ih =>
    obtain ⟨hx, hxs⟩ := List.forall_mem_cons.1 hxs
    cases ys with
    | nil =>
      have hhead := (List.cons.inj h).1
      exact absurd hhead.symm hcomma
    | cons y ys =>
      rw [List.flatMap_cons, List.flatMap_cons, List.append_assoc, List.append_assoc] at h
      obtain ⟨rfl, hrest⟩ := hx y _ _ (endsNumeral_entries xs hclose r)
        (endsNumeral_entries ys hclose r') (List.cons.inj h).2
      obtain ⟨rfl, rfl⟩ := ih hxs hrest
      exact ⟨rfl, rfl⟩

/-- Entries up to a bracket that begins none of them are read in one way. -/
theorem separated_append_inj {xs ys : List α} {close : Char} {r r' : List Char}
    (hxs : ∀ x ∈ xs, ReadInOneWay f x) (hclose : isNumeral close = false) (hcomma : close ≠ ',')
    (hfirst : ∀ x, ∃ c rest, f x = c :: rest ∧ c ≠ close)
    (h : separated f xs ++ close :: r = separated f ys ++ close :: r') : xs = ys ∧ r = r' := by
  cases xs with
  | nil =>
    cases ys with
    | nil => simpa [separated] using h
    | cons y ys =>
      obtain ⟨c, rest, hy, hc⟩ := hfirst y
      rw [separated, separated, hy] at h
      exact absurd (List.cons.inj h).1.symm hc
  | cons x xs =>
    cases ys with
    | nil =>
      obtain ⟨c, rest, hx, hc⟩ := hfirst x
      rw [separated, separated, hx] at h
      exact absurd (List.cons.inj h).1 hc
    | cons y ys =>
      obtain ⟨hx, hxs⟩ := List.forall_mem_cons.1 hxs
      rw [separated, separated, List.append_assoc, List.append_assoc] at h
      obtain ⟨rfl, hrest⟩ := hx y _ _ (endsNumeral_entries xs hclose r)
        (endsNumeral_entries ys hclose r') h
      obtain ⟨rfl, rfl⟩ := entries_append_inj hxs hclose hcomma hrest
      exact ⟨rfl, rfl⟩

end

/-- A member as it stands in an object. -/
def writeMember (m : String × Json) : List Char := quoted m.1 ++ ':' :: write m.2

theorem writeItems_eq_separated (items : List Json) : writeItems items = separated write items := by
  induction items with
  | nil => rw [writeItems, separated]
  | cons v vs ih =>
    cases vs with
    | nil => rw [writeItems, separated, List.flatMap_nil, List.append_nil]
    | cons w ws =>
      rw [writeItems, ih]
      · rfl
      · simp

theorem writeMembers_eq_separated (members : List (String × Json)) :
    writeMembers members = separated writeMember members := by
  induction members with
  | nil => rw [writeMembers, separated]
  | cons m ms ih =>
    cases ms with
    | nil => rw [writeMembers, separated, List.flatMap_nil, List.append_nil, writeMember]
    | cons n ns =>
      rw [writeMembers, ih]
      · rfl
      · simp

/-! ## Values -/

/-- The first character of a value, with a zero for any that begins a number. -/
def first : Json → Char
  | .null => 'n'
  | .bool b => if b then 't' else 'f'
  | .int _ => '0'
  | .str _ => '"'
  | .arr _ => '['
  | .obj _ => '{'

theorem exists_first (v : Json) :
    ∃ c rest, v.write = c :: rest ∧ (if isNumeral c then '0' else c) = v.first := by
  cases v with
  | null => exact ⟨'n', "ull".toList, by rw [write]; rfl, rfl⟩
  | bool b =>
    cases b
    · exact ⟨'f', "alse".toList, by rw [write]; rfl, rfl⟩
    · exact ⟨'t', "rue".toList, by rw [write]; rfl, rfl⟩
  | int n =>
    obtain ⟨c, rest, hn⟩ := List.exists_cons_of_ne_nil (toString_ne_nil n)
    have hc : isNumeral c = true := isNumeral_of_mem_toString (hn ▸ List.mem_cons_self)
    exact ⟨c, rest, by rw [write, hn], by rw [if_pos hc, first]⟩
  | str s => exact ⟨'"', _, by rw [write, quoted]; rfl, rfl⟩
  | arr items => exact ⟨'[', _, by rw [write]; rfl, rfl⟩
  | obj members => exact ⟨'{', _, by rw [write]; rfl, rfl⟩

theorem first_eq_of_write_append {v w : Json} {r r' : List Char}
    (h : v.write ++ r = w.write ++ r') : v.first = w.first := by
  obtain ⟨c, rest, hv, hc⟩ := exists_first v
  obtain ⟨d, rest', hw, hd⟩ := exists_first w
  rw [hv, hw] at h
  obtain rfl : c = d := (List.cons.inj h).1
  rw [← hc, ← hd]

theorem exists_first_ne_bracket (v : Json) : ∃ c rest, v.write = c :: rest ∧ c ≠ ']' := by
  obtain ⟨c, rest, hv, hc⟩ := exists_first v
  refine ⟨c, rest, hv, ?_⟩
  rintro rfl
  rw [if_neg (by decide)] at hc
  cases v <;> grind [first]

theorem readInOneWay_writeMember {m : String × Json} (h : ReadInOneWay write m.2) :
    ReadInOneWay writeMember m := by
  intro m' r r' hr hr' heq
  rw [writeMember, writeMember, List.append_assoc, List.append_assoc] at heq
  obtain ⟨hkey, hrest⟩ := quoted_append_inj heq
  obtain ⟨hvalue, hr⟩ := h _ _ _ hr hr' (List.cons.inj hrest).2
  exact ⟨Prod.ext hkey hvalue, hr⟩

/-- A value and what follows it are read from the text in one way. -/
theorem write_append_inj (v : Json) : ReadInOneWay write v := by
  induction v using induction_on_parts with
  | null =>
    intro w r r' _ _ h
    have hfirst := first_eq_of_write_append h
    cases w with
    | null => exact ⟨rfl, List.append_cancel_left h⟩
    | _ => grind [first]
  | bool b =>
    intro w r r' _ _ h
    have hfirst := first_eq_of_write_append h
    cases w with
    | bool b' =>
      obtain rfl : b = b' := by grind [first]
      exact ⟨rfl, List.append_cancel_left h⟩
    | _ => grind [first]
  | int n =>
    intro w r r' hr hr' h
    have hfirst := first_eq_of_write_append h
    cases w with
    | int n' =>
      rw [write, write] at h
      obtain ⟨rfl, hrest⟩ := toString_append_inj hr hr' h
      exact ⟨rfl, hrest⟩
    | _ => grind [first]
  | str s =>
    intro w r r' _ _ h
    have hfirst := first_eq_of_write_append h
    cases w with
    | str s' =>
      rw [write, write] at h
      obtain ⟨rfl, hrest⟩ := quoted_append_inj h
      exact ⟨rfl, hrest⟩
    | _ => grind [first]
  | arr items ih =>
    intro w r r' _ _ h
    have hfirst := first_eq_of_write_append h
    cases w with
    | arr items' =>
      simp only [write, writeItems_eq_separated, List.cons_append, List.append_assoc,
        List.nil_append] at h
      obtain ⟨rfl, hrest⟩ := separated_append_inj ih rfl (by decide) exists_first_ne_bracket
        (List.cons.inj h).2
      exact ⟨rfl, hrest⟩
    | _ => grind [first]
  | obj members ih =>
    intro w r r' _ _ h
    have hfirst := first_eq_of_write_append h
    cases w with
    | obj members' =>
      simp only [write, writeMembers_eq_separated, List.cons_append, List.append_assoc,
        List.nil_append] at h
      obtain ⟨rfl, hrest⟩ := separated_append_inj
        (fun m hm => readInOneWay_writeMember (ih m hm)) rfl (by decide)
        (fun m => ⟨'"', _, rfl, by decide⟩) (List.cons.inj h).2
      exact ⟨rfl, hrest⟩
    | _ => grind [first]

/-- A value stands on one line. -/
theorem lineFeed_notMem_write (v : Json) : '\n' ∉ v.write := by
  induction v using induction_on_parts with
  | null => rw [write]; decide
  | bool b => cases b <;> (rw [write]; decide)
  | int n =>
    rw [write]
    intro hlf
    exact absurd (isNumeral_of_mem_toString hlf) (by decide)
  | str s =>
    rw [write]
    exact lineFeed_notMem_quoted s
  | arr items ih =>
    rw [write, writeItems_eq_separated]
    intro hlf
    have hlf : '\n' ∈ separated write items := by simpa using hlf
    rcases mem_separated hlf with hcomma | ⟨v, hv, hlf⟩
    · exact absurd hcomma (by decide)
    · exact ih v hv hlf
  | obj members ih =>
    rw [write, writeMembers_eq_separated]
    intro hlf
    have hlf : '\n' ∈ separated writeMember members := by simpa using hlf
    rcases mem_separated hlf with hcomma | ⟨m, hm, hlf⟩
    · exact absurd hcomma (by decide)
    · rw [writeMember, List.mem_append, List.mem_cons] at hlf
      rcases hlf with hkey | hcolon | hvalue
      · exact lineFeed_notMem_quoted m.1 hkey
      · exact absurd hcolon (by decide)
      · exact ih m hm hvalue

end Json

end CallAlign
