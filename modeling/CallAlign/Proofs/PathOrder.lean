import CallAlign.Discovery
import CallAlign.Proofs.FileTree

/-!
# The order of paths

Paths are put in the order of their texts.  Legal names have no slash in them, so that a text tells
which names it was made from, and paths that differ have texts that differ.

    relativeText_injective  : the text of a path tells its names
    sortPaths_strict        : distinct paths come in strictly increasing order of their texts
-/

namespace CallAlign

/-! ## Lemmas -/

/-- The order by code points is the order of texts. -/
theorem lt_of_codePointLE {s t : List Char} (h : codePointLE s t = true) (hne : s ≠ t) : s < t := by
  induction s generalizing t with
  | nil =>
    cases t with
    | nil => exact absurd rfl hne
    | cons b bs => exact List.nil_lt_cons b bs
  | cons a as ih =>
    cases t with
    | nil => cases h
    | cons b bs =>
      rw [codePointLE, Bool.or_eq_true, Bool.and_eq_true, decide_eq_true_eq, beq_iff_eq] at h
      rw [List.cons_lt_cons_iff]
      rcases h with hlt | ⟨rfl, hle⟩
      · left
        show a.val < b.val
        exact UInt32.lt_iff_toNat_lt.2 hlt
      · right
        exact ⟨rfl, ih hle fun heq => hne (congrArg (a :: ·) heq)⟩

theorem codePointLE_of_lt {s t : List Char} (h : s < t) : codePointLE s t = true := by
  have htotal := codePointLE_total s t
  rw [Bool.or_eq_true] at htotal
  rcases htotal with hle | hle
  · exact hle
  · by_cases heq : t = s
    · subst heq
      exact hle
    · exact absurd h (List.lt_asymm (lt_of_codePointLE hle heq))

/-! ## Texts of paths -/

theorem slash_notMem_of_isLegalName {name : String} (h : isLegalName name = true) :
    '/' ∉ name.toList := by
  simp only [isLegalName, Bool.and_eq_true, Bool.not_eq_true'] at h
  simpa using h.1.1.2

theorem splitOn_relativeText {p : Path} (hne : p ≠ [])
    (hp : ∀ name ∈ p, isLegalName name = true) :
    p.relativeText.toList.splitOn '/' = p.map String.toList := by
  show ("/".intercalate p).toList.splitOn '/' = p.map String.toList
  rw [String.toList_intercalate]
  apply List.splitOn_intercalate
  · intro cs hcs
    obtain ⟨name, hname, rfl⟩ := List.mem_map.1 hcs
    exact slash_notMem_of_isLegalName (hp name hname)
  · simpa using hne

/-- The text of a path tells its names. -/
theorem relativeText_injective {p q : Path} (hpne : p ≠ []) (hqne : q ≠ [])
    (hp : ∀ name ∈ p, isLegalName name = true) (hq : ∀ name ∈ q, isLegalName name = true)
    (h : p.relativeText = q.relativeText) : p = q := by
  have hmap : p.map String.toList = q.map String.toList := by
    rw [← splitOn_relativeText hpne hp, ← splitOn_relativeText hqne hq, h]
  exact (List.map_inj_right fun _ _ => String.toList_inj.1).1 hmap

/-! ## Top theorems -/

/-- Distinct paths come in strictly increasing order of their texts. -/
theorem sortPaths_strict {paths : List Path} (hnd : paths.Nodup)
    (hlegal : ∀ p ∈ paths, p ≠ [] ∧ ∀ name ∈ p, isLegalName name = true) :
    (sortPaths paths).Pairwise fun p q => p.relativeText < q.relativeText := by
  have hperm := sortPaths_perm paths
  have hsorted := (pairwise_sortPaths paths).and (hperm.nodup_iff.2 hnd)
  refine hsorted.imp_of_mem fun {p q} hp hq hpq => ?_
  obtain ⟨hle, hne⟩ := hpq
  obtain ⟨hpne, hp⟩ := hlegal p (hperm.mem_iff.1 hp)
  obtain ⟨hqne, hq⟩ := hlegal q (hperm.mem_iff.1 hq)
  rw [String.lt_iff]
  apply lt_of_codePointLE hle
  intro heq
  exact hne (relativeText_injective hpne hqne hp hq (String.toList_inj.1 heq))

end CallAlign
