import CallAlign.Proofs.DecodedRows
import CallAlign.Proofs.DirectoryRun
import CallAlign.Proofs.ObservedLayout

/-!
# Where offenses stand

An offense stands at the start of a node of the tree that was parsed, so that its position is that
of a point of the parser.  The bytes before a point decode to no more characters than they are
(`Utf8.length_decode_le`), which bounds the column of the position by that of the point.  A parser
that counts rows and bytes in 32 bits therefore leads to offenses that a report can write.

    exists_node_of_mem_inspect : the node at which an offense stands
    fits_of_mem_offenses       : the offenses of a run fit into a report
-/

namespace CallAlign

/-! ## The node of an offense -/

section

variable {α : Type} {f : α → Extent} {lines : SourceLines} {o : Offense}

theorem exists_node_of_checkCall {t : SyntaxTree α}
    (h : checkCall lines (.ofNode (t.map f)) = some o) :
    ∃ s ∈ t.preorder [], o.line = (f s.label).span.start.line ∧
      o.column = (f s.label).span.start.column := by
  obtain ⟨argument, hopener, hline, hcolumn⟩ := exists_lineOpener_of_checkCall h
  obtain ⟨before, previous, after, hsplit, -⟩ := (mem_lineOpeners_iff _).1 hopener
  have hargument : argument ∈ (Call.ofNode (t.map f)).arguments := by simp [hsplit]
  rw [arguments_ofNode_map] at hargument
  obtain ⟨entry, hentry, -, rfl⟩ := mem_argumentsOf.1 hargument
  obtain ⟨s, hs, rfl⟩ := List.mem_map.1 hentry
  refine ⟨s, mem_nodes_of_mem_entries hs, ?_⟩
  rw [hline, hcolumn, Argument.ofNode, SyntaxTree.label_map]
  exact ⟨rfl, rfl⟩

/-- An offense of a tree stands at the start of one of its nodes. -/
theorem exists_node_of_mem_inspect {root : SyntaxTree α} (h : o ∈ inspect (root.map f) lines) :
    ∃ s ∈ root.preorder [], o.line = (f s.label).span.start.line ∧
      o.column = (f s.label).span.start.column := by
  rw [inspect, (sortOffenses_perm _).mem_iff, List.mem_filterMap, callSites_map] at h
  obtain ⟨call, hcall, ho⟩ := h
  obtain ⟨t, ht, rfl⟩ := List.mem_map.1 hcall
  have ht := List.mem_of_mem_filter ht
  rw [SyntaxTree.walk_eq_preorder] at ht
  obtain ⟨s, hs, hplace⟩ := exists_node_of_checkCall ho
  exact ⟨s, SyntaxTree.mem_preorder_trans hs (SyntaxTree.mem_nodes_of_mem_preorder ht), hplace⟩

end

/-! ## Columns and bytes -/

/-- Bytes decode to no more characters than they are. -/
theorem Utf8.length_decode_le (bs : List UInt8) : (decode bs).length ≤ bs.length := by
  calc (decode bs).length
      = (begins .ready bs).count true := length_decode bs
    _ ≤ (begins .ready bs).length := List.count_le_length
    _ = bs.length := length_begins .ready bs

/-- A column counts no more characters than the parser counts bytes. -/
theorem RowTable.column_position_le_byte (t : RowTable) (p : Point) :
    0 ≤ (t.position p).column ∧ (t.position p).column ≤ p.byte := by
  unfold position
  split
  · next row _ _ =>
    have hlength := Utf8.length_decode_le (row.take p.byte)
    have htake := List.length_take_le p.byte row
    dsimp only
    omega
  · dsimp only
    omega

/-! ## Positions that can be written -/

/-- All nodes begin at a row and a byte that 32 bits can count. -/
def Parser.CountsIn32Bits (parse : Parser) : Prop :=
  ∀ bytes, ∀ s ∈ (parse bytes).root.preorder [],
    s.label.start.row < 4294967296 ∧ s.label.start.byte < 4294967296

theorem fits_record (o : FileOffense) :
    o.record.fits = (Json.intFits o.line && Json.intFits o.column) := by
  simp [FileOffense.record, Json.fits, Json.fitsMembers]

section

variable {parse : Parser} {fs : FileSystem} {o : FileOffense}

/-- An offense of a file is one of the tree that its bytes parse to. -/
theorem exists_bytes_of_mem_inspectFile {file : Path} {name : String}
    (ho : o ∈ (inspectFile parse fs file name).offenses) :
    ∃ bytes, let source := Source.ofBytes parse bytes
      ∃ offense ∈ inspect source.root source.lines, o = .ofOffense name copName offense := by
  unfold inspectFile at ho
  split at ho
  · cases ho
  · next bytes _ =>
    unfold Source.outcome at ho
    split at ho
    · cases ho
    · next hstrict =>
      obtain rfl := Source.eq_of_strict_eq_ok hstrict
      obtain ⟨offense, hoffense, rfl⟩ := List.mem_map.1 ho
      exact ⟨bytes, offense, hoffense, rfl⟩

theorem fits_of_mem_inspectFile (hparse : parse.CountsIn32Bits) {file : Path} {name : String}
    (ho : o ∈ (inspectFile parse fs file name).offenses) : o.record.fits = true := by
  obtain ⟨bytes, offense, hoffense, rfl⟩ := exists_bytes_of_mem_inspectFile ho
  obtain ⟨s, hs, hline, hcolumn⟩ := exists_node_of_mem_inspect hoffense
  obtain ⟨hrow, hbyte⟩ := hparse bytes s hs
  let table := RowTable.ofBytes bytes
  have hstart := table.column_position_le_byte s.label.start
  have hlines := table.line_position s.label.start
  have hline : offense.line = s.label.start.row + 1 := hline.trans hlines
  have hcolumn : offense.column = (table.position s.label.start).column := hcolumn
  have hfits : ∀ n : Int, 0 ≤ n → n ≤ 4294967296 → Json.intFits n = true := by
    intro n h₁ h₂
    simp only [Json.intFits, Bool.and_eq_true, decide_eq_true_eq]
    omega
  rw [fits_record, Bool.and_eq_true]
  constructor
  · exact hfits offense.line (by omega) (by omega)
  · exact hfits offense.column (by omega) (by omega)

/-- The offenses of a run fit into a report. -/
theorem fits_of_mem_offenses {ε : Type} {ignore : IgnoreReader ε} (hparse : parse.CountsIn32Bits)
    {root : Path} {config : Config} {jobs : Int} {r : Run}
    (hrun : run ignore parse fs root config jobs = .ok r) :
    ∀ o ∈ r.result.offenses, o.record.fits = true := by
  intro o ho
  obtain ⟨file, ho, -⟩ := exists_file_of_mem_offenses hrun ho
  exact fits_of_mem_inspectFile hparse ho

end

end CallAlign
