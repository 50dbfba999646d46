import CallAlign.Proofs.DecodedRows
import CallAlign.Proofs.JsonText
import Mathlib.Data.List.Forall2
import Mathlib.Data.List.Nodup
import Mathlib.Data.List.Perm.Basic

/-!
# JSON lines

A record has a line of its own, and the line tells the record up to the order in which its objects
list their members: putting the members in order forgets that order and nothing else.

    fits_iff_inRange    : a value can be written exactly when its integers have 64 bits
    text_eq_iff         : values have one text exactly when they differ in order at most
    jsonLines_canonical : what is written for records, and what it tells of them
-/

namespace CallAlign

namespace Json

/-! ## Integers of a value -/

/-- The integer stands somewhere in the value. -/
inductive Holds (n : Int) : Json → Prop
  | int : Holds n (.int n)
  | arr {items : List Json} {v : Json} : v ∈ items → Holds n v → Holds n (.arr items)
  | obj {members : List (String × Json)} {m : String × Json} :
    m ∈ members → Holds n m.2 → Holds n (.obj members)

/-- All integers of the value have 64 bits, signed or unsigned. -/
def InRange (v : Json) : Prop :=
  ∀ n, v.Holds n → -9223372036854775808 ≤ n ∧ n ≤ 18446744073709551615

theorem inRange_int (n : Int) :
    (int n).InRange ↔ -9223372036854775808 ≤ n ∧ n ≤ 18446744073709551615 := by
  constructor
  · intro h
    exact h n .int
  · rintro h _ ⟨⟩
    exact h

theorem inRange_arr (items : List Json) : (arr items).InRange ↔ ∀ v ∈ items, v.InRange := by
  constructor
  · intro h v hv n hn
    exact h n (.arr hv hn)
  · rintro h n (_ | ⟨hv, hn⟩)
    exact h _ hv n hn

theorem inRange_obj (members : List (String × Json)) :
    (obj members).InRange ↔ ∀ m ∈ members, m.2.InRange := by
  constructor
  · intro h m hm n hn
    exact h n (.obj hm hn)
  · rintro h n (_ | _ | ⟨hm, hn⟩)
    exact h _ hm n hn

theorem fitsItems_iff (items : List Json) :
    fitsItems items = true ↔ ∀ v ∈ items, v.fits = true := by
  induction items with
  | nil => simp [fitsItems]
  | cons v vs ih => simp [fitsItems, ih]

theorem fitsMembers_iff (members : List (String × Json)) :
    fitsMembers members = true ↔ ∀ m ∈ members, m.2.fits = true := by
  induction members with
  | nil => simp [fitsMembers]
  | cons m ms ih => simp [fitsMembers, ih]

/-- A value can be written exactly when its integers have 64 bits. -/
theorem fits_iff_inRange (v : Json) : v.fits = true ↔ v.InRange := by
  induction v using induction_on_parts with
  | null => simp only [fits, true_iff]; exact fun n hn => nomatch hn
  | bool b => simp only [fits, true_iff]; exact fun n hn => nomatch hn
  | int n =>
    rw [inRange_int, fits, intFits, Bool.and_eq_true, decide_eq_true_eq, decide_eq_true_eq]
    omega
  | str s => simp only [fits, true_iff]; exact fun n hn => nomatch hn
  | arr items ih =>
    rw [inRange_arr, fits, fitsItems_iff]
    exact forall₂_congr ih
  | obj members ih =>
    rw [inRange_obj, fits, fitsMembers_iff]
    exact forall₂_congr ih

/-! ## The order of members -/

/-- In every object the keys differ. -/
inductive DistinctKeys : Json → Prop
  | null : DistinctKeys .null
  | bool (b : Bool) : DistinctKeys (.bool b)
  | int (n : Int) : DistinctKeys (.int n)
  | str (s : String) : DistinctKeys (.str s)
  | arr {items : List Json} : (∀ v ∈ items, DistinctKeys v) → DistinctKeys (.arr items)
  | obj {members : List (String × Json)} : (members.map Prod.fst).Nodup →
    (∀ m ∈ members, DistinctKeys m.2) → DistinctKeys (.obj members)

mutual

/-- Equal up to the order in which objects list their members, at every depth. -/
inductive SameButOrder : Json → Json → Prop
  | null : SameButOrder .null .null
  | bool (b : Bool) : SameButOrder (.bool b) (.bool b)
  | int (n : Int) : SameButOrder (.int n) (.int n)
  | str (s : String) : SameButOrder (.str s) (.str s)
  | arr {items items' : List Json} :
    List.Forall₂ SameButOrder items items' → SameButOrder (.arr items) (.arr items')
  | obj {members members' reordered : List (String × Json)} :
    List.Forall₂ SameMember members reordered → reordered.Perm members' →
    SameButOrder (.obj members) (.obj members')

inductive SameMember : String × Json → String × Json → Prop
  | intro (key : String) {v w : Json} : SameButOrder v w → SameMember (key, v) (key, w)

end

/-- A member with its value in canonical form. -/
def canonicalMember (m : String × Json) : String × Json := (m.1, m.2.canonical)

theorem canonicalItems_eq_map (items : List Json) :
    canonicalItems items = items.map canonical := by
  induction items with
  | nil => rfl
  | cons v vs ih => rw [canonicalItems, ih, List.map_cons]

theorem canonicalMembers_eq_map (members : List (String × Json)) :
    canonicalMembers members = members.map canonicalMember := by
  induction members with
  | nil => rfl
  | cons m ms ih => rw [canonicalMembers, ih, List.map_cons, canonicalMember]

theorem forall₂_imp_of_mem {α β : Type} {R S : α → β → Prop} {xs : List α} {ys : List β}
    (h : List.Forall₂ R xs ys) (himp : ∀ x ∈ xs, ∀ y, R x y → S x y) : List.Forall₂ S xs ys :=
  ((List.forall₂_and_left xs ys).2 ⟨himp, h⟩).imp fun _ y hxy => hxy.1 y hxy.2

theorem map_eq_map_iff_forall₂ {α β : Type} {f : α → β} {xs ys : List α} :
    xs.map f = ys.map f ↔ List.Forall₂ (fun x y => f x = f y) xs ys := by
  rw [← List.forall₂_eq_eq_eq, List.forall₂_map_left_iff, List.forall₂_map_right_iff]

theorem keyLE_total (a b : String × Json) : (keyLE a b || keyLE b a) = true :=
  codePointLE_total a.1.toList b.1.toList

theorem keyLE_trans (a b c : String × Json) (hab : keyLE a b = true) (hbc : keyLE b c = true) :
    keyLE a c = true :=
  codePointLE_trans a.1.toList b.1.toList c.1.toList hab hbc

/-- Members with distinct keys come in one order. -/
theorem mergeSort_keyLE_eq_of_perm {members members' : List (String × Json)}
    (hkeys : (members.map Prod.fst).Nodup) (h : members.Perm members') :
    members.mergeSort keyLE = members'.mergeSort keyLE := by
  have hleft := List.mergeSort_perm members keyLE
  have hright := List.mergeSort_perm members' keyLE
  refine List.Perm.eq_of_pairwise ?_ (List.pairwise_mergeSort keyLE_trans keyLE_total members)
    (List.pairwise_mergeSort keyLE_trans keyLE_total members') (hleft.trans (h.trans hright.symm))
  intro a b ha hb hab hba
  have hkey : a.1 = b.1 := String.toList_inj.1 (codePointLE_antisymm _ _ hab hba)
  exact List.inj_on_of_nodup_map hkeys (hleft.mem_iff.1 ha)
    (h.mem_iff.2 (hright.mem_iff.1 hb)) hkey

theorem canonical_eq_of_sameButOrder {v w : Json} (hv : v.DistinctKeys) (h : SameButOrder v w) :
    v.canonical = w.canonical := by
  induction v using induction_on_parts generalizing w with
  | null => cases h; rfl
  | bool b => cases h; rfl
  | int n => cases h; rfl
  | str s => cases h; rfl
  | arr items ih =>
    cases hv with
    | arr hdistinct =>
      cases h with
      | @arr _ items' hsame =>
        have hitems : items.map canonical = items'.map canonical :=
          map_eq_map_iff_forall₂.2 (forall₂_imp_of_mem hsame fun v hv _ h =>
            ih v hv (hdistinct v hv) h)
        rw [canonical, canonical, canonicalItems_eq_map, canonicalItems_eq_map, hitems]
  | obj members ih =>
    cases hv with
    | obj hkeys hdistinct =>
      cases h with
      | @obj _ members' reordered hsame hperm =>
        have hmembers : members.map canonicalMember = reordered.map canonicalMember := by
          refine map_eq_map_iff_forall₂.2 (forall₂_imp_of_mem hsame ?_)
          rintro _ hm _ ⟨key, hvw⟩
          exact congrArg (key, ·) (ih _ hm (hdistinct _ hm) hvw)
        have hnodup : ((reordered.map canonicalMember).map Prod.fst).Nodup := by
          rw [← hmembers, List.map_map]
          exact hkeys
        rw [canonical, canonical, canonicalMembers_eq_map, canonicalMembers_eq_map, hmembers,
          mergeSort_keyLE_eq_of_perm hnodup (hperm.map canonicalMember)]

theorem sameButOrder_of_canonical_eq {v w : Json} (h : v.canonical = w.canonical) :
    SameButOrder v w := by
  induction v using induction_on_parts generalizing w with
  | null =>
    cases w with
    | null => exact .null
    | _ => cases h
  | bool b =>
    cases w with
    | bool b' =>
      cases h
      exact .bool b
    | _ => cases h
  | int n =>
    cases w with
    | int n' =>
      cases h
      exact .int n
    | _ => cases h
  | str s =>
    cases w with
    | str s' =>
      cases h
      exact .str s
    | _ => cases h
  | arr items ih =>
    cases w with
    | arr items' =>
      rw [canonical, canonical, canonicalItems_eq_map, canonicalItems_eq_map, arr.injEq,
        map_eq_map_iff_forall₂] at h
      exact .arr (forall₂_imp_of_mem h fun v hv _ => ih v hv)
    | _ => cases h
  | obj members ih =>
    cases w with
    | obj members' =>
      rw [canonical, canonical, canonicalMembers_eq_map, canonicalMembers_eq_map,
        obj.injEq] at h
      -- sorting forgot an order of the members of `w`: one that goes with `members` one by one
      have hperm : (members.map canonicalMember).Perm (members'.map canonicalMember) :=
        (List.mergeSort_perm _ keyLE).symm.trans (h ▸ List.mergeSort_perm _ keyLE)
      have hsame : List.Forall₂ (fun m m' => m = canonicalMember m') (members'.map canonicalMember)
          members' :=
        List.forall₂_map_left_iff.2 (List.forall₂_same.2 fun _ _ => rfl)
      obtain ⟨reordered, hreordered, hperm⟩ := List.perm_comp_forall₂ hperm hsame
      refine .obj (forall₂_imp_of_mem (List.forall₂_map_left_iff.1 hreordered) ?_) hperm
      rintro ⟨key, v⟩ hm ⟨key', v'⟩ hmm'
      obtain ⟨rfl, hv⟩ := Prod.mk.inj hmm'
      exact .intro key (ih _ hm hv)
    | _ => cases h

/-! ## Lines -/

/-- The text of a value tells its canonical form. -/
theorem canonical_eq_of_text_eq {v w : Json} (h : v.text = w.text) : v.canonical = w.canonical := by
  have hend : EndsNumeral [] := fun c hc => nomatch hc
  refine (write_append_inj v.canonical w.canonical [] [] hend hend ?_).1
  rw [List.append_nil, List.append_nil]
  exact h

/-- The text of a value tells the value up to the order of members. -/
theorem text_eq_iff {v w : Json} (hv : v.DistinctKeys) : v.text = w.text ↔ SameButOrder v w := by
  constructor
  · intro h
    exact sameButOrder_of_canonical_eq (canonical_eq_of_text_eq h)
  · intro h
    rw [text, text, canonical_eq_of_sameButOrder hv h]

theorem lineFeed_notMem_lines (records : List Json) :
    ∀ line ∈ records.map text, '\n' ∉ line := by
  intro line hline
  obtain ⟨record, -, rfl⟩ := List.mem_map.1 hline
  exact lineFeed_notMem_write record.canonical

theorem splitOn_lines (records : List Json) :
    ((records.map text).flatMap (· ++ ['\n'])).splitOn '\n' = records.map text ++ [[]] := by
  have hsplit := splitOn_flatMap_append (lineFeed_notMem_lines records) []
  rwa [List.append_nil] at hsplit

theorem count_lines (records : List Json) :
    ((records.map text).flatMap (· ++ ['\n'])).count '\n' = records.length := by
  have hone : ∀ line ∈ records.map text, (List.count '\n' ∘ (· ++ ['\n'])) line = 1 := by
    intro line hline
    rw [Function.comp_apply, List.count_append,
      List.count_eq_zero.2 (lineFeed_notMem_lines records line hline)]
    rfl
  rw [List.count_flatMap, List.map_congr_left hone]
  simp [Function.comp_def]

end Json

open Json

theorem all_fits_iff (records : List Json) :
    records.all fits = true ↔ ∀ record ∈ records, record.InRange := by
  rw [List.all_eq_true]
  exact forall₂_congr fun record _ => fits_iff_inRange record

theorem jsonLines?_eq_none {records : List Json} (h : ∃ record ∈ records, ¬ record.InRange) :
    jsonLines? records = none := by
  obtain ⟨record, hrecord, hrange⟩ := h
  exact if_neg fun hall => hrange ((all_fits_iff records).1 hall record hrecord)

theorem jsonLines?_eq_some {records : List Json} (h : ∀ record ∈ records, record.InRange) :
    jsonLines? records = some (String.ofList ((records.map text).flatMap (· ++ ['\n']))) := by
  rw [jsonLines?, if_pos ((all_fits_iff records).2 h), List.flatMap_map]

theorem jsonLines?_inj {records records' : List Json} (h : ∀ record ∈ records, record.InRange)
    (h' : ∀ record ∈ records', record.InRange) :
    jsonLines? records = jsonLines? records' ↔ records.map text = records'.map text := by
  rw [jsonLines?_eq_some h, jsonLines?_eq_some h', Option.some.injEq, String.ofList_inj]
  refine ⟨fun heq => ?_, fun heq => by rw [heq]⟩
  have hsplit := congrArg (List.splitOn '\n') heq
  rw [splitOn_lines, splitOn_lines] at hsplit
  exact List.append_cancel_right hsplit

/-! ## Top theorem -/

/-- **JSON lines.**  Records whose integers have 64 bits are written with a line for each of them,
and two lists of records are written alike exactly when they differ at most in the order in which
objects list their members.  When an integer anywhere is out of range, nothing is written. -/
theorem jsonLines_canonical (records : List Json) :
    ((∃ record ∈ records, ¬ record.InRange) → jsonLines? records = none) ∧
    ((∀ record ∈ records, record.InRange) →
      (∃ text, jsonLines? records = some text ∧
        text.toList.splitOn '\n' = records.map Json.text ++ [[]] ∧
        text.toList.count '\n' = records.length) ∧
      ∀ records' : List Json, (∀ record ∈ records', record.InRange) →
        (∀ record ∈ records, record.DistinctKeys) →
        (jsonLines? records = jsonLines? records' ↔
          List.Forall₂ SameButOrder records records')) := by
  refine ⟨jsonLines?_eq_none, fun hrange => ⟨⟨_, jsonLines?_eq_some hrange, ?_, ?_⟩, ?_⟩⟩
  · rw [String.toList_ofList, splitOn_lines]
  · rw [String.toList_ofList, count_lines]
  · intro records' hrange' hkeys
    rw [jsonLines?_inj hrange hrange', map_eq_map_iff_forall₂]
    constructor
    · exact fun h => forall₂_imp_of_mem h fun v hv w => (text_eq_iff (hkeys v hv)).1
    · exact fun h => forall₂_imp_of_mem h fun v hv w => (text_eq_iff (hkeys v hv)).2

/-- A record with an object inside a list, the least and the greatest integer, and a string of
characters that are escaped and one that is not. -/
def nestedRecord : Json :=
  .obj
    [("path", .str "a\"b\n\x01\\é"),
      ("sizes", .arr [.obj [("least", .int (-9223372036854775808)), ("é", .null)],
        .int 18446744073709551615])]

def nestedRecordReordered : Json :=
  .obj
    [("sizes", .arr [.obj [("é", .null), ("least", .int (-9223372036854775808))],
        .int 18446744073709551615]),
      ("path", .str "a\"b\n\x01\\é")]

theorem nestedRecord_sameButOrder : SameButOrder nestedRecord nestedRecordReordered := by
  have hinner : SameButOrder
      (.obj [("least", .int (-9223372036854775808)), ("é", .null)])
      (.obj [("é", .null), ("least", .int (-9223372036854775808))]) :=
    .obj (.cons (.intro _ (.int _)) (.cons (.intro _ .null) .nil)) (List.Perm.swap _ _ _)
  exact .obj (.cons (.intro _ (.str _)) (.cons (.intro _ (.arr (.cons hinner (.cons (.int _) .nil))))
    .nil)) (List.Perm.swap _ _ _)

theorem nestedRecord_distinctKeys : nestedRecord.DistinctKeys := by
  have hinner : DistinctKeys (.obj [("least", .int (-9223372036854775808)), ("é", .null)]) :=
    .obj (by decide) (by simp [DistinctKeys.int, DistinctKeys.null])
  have hsizes : DistinctKeys (.arr [.obj [("least", .int (-9223372036854775808)), ("é", .null)],
      .int 18446744073709551615]) :=
    .arr (by simp [hinner, DistinctKeys.int])
  exact .obj (by decide) (by simp [hsizes, DistinctKeys.str])

/-- The record is written alike with its members in another order, and not at all beside an integer
that is one too great. -/
theorem jsonLines_canonical_nestedRecord :
    (∃ text, jsonLines? [nestedRecord, .bool true] = some text ∧
      jsonLines? [nestedRecordReordered, .bool true] = some text ∧
      text.toList.count '\n' = 2) ∧
    jsonLines? [nestedRecord, .bool true] ≠ jsonLines? [.bool true, nestedRecord] ∧
    jsonLines? [nestedRecord, .arr [.int 18446744073709551616]] = none := by
  have hrange : ∀ record ∈ [nestedRecord, .bool true], record.InRange :=
    (all_fits_iff _).1 (by decide)
  have hrange' : ∀ record ∈ [nestedRecordReordered, .bool true], record.InRange :=
    (all_fits_iff _).1 (by decide)
  have hswapped : ∀ record ∈ [.bool true, nestedRecord], record.InRange :=
    (all_fits_iff _).1 (by decide)
  have hkeys : ∀ record ∈ [nestedRecord, .bool true], record.DistinctKeys :=
    List.forall_mem_cons.2 ⟨nestedRecord_distinctKeys, by simpa using .bool true⟩
  obtain ⟨⟨text, htext, -, hcount⟩, hlines⟩ :=
    (jsonLines_canonical [nestedRecord, .bool true]).2 hrange
  refine ⟨⟨text, htext, ?_, hcount⟩, fun h => ?_, ?_⟩
  · rw [← htext]
    exact ((hlines _ hrange' hkeys).2
      (.cons nestedRecord_sameButOrder (.cons (.bool true) .nil))).symm
  · cases (hlines _ hswapped hkeys).1 h with
    | cons hfirst _ => cases hfirst
  · refine (jsonLines_canonical _).1 ⟨.arr [.int 18446744073709551616], by simp, ?_⟩
    rw [← fits_iff_inRange]
    decide

end CallAlign
