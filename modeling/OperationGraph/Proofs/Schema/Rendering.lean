import OperationGraph.Proofs.Definition.Reading
import OperationGraph.Proofs.Definition.Writing
import OperationGraph.Schema.Render

/-! # Schemas are read from their text -/

namespace OperationGraph

namespace Schema

theorem endLine_of_tidy {q : Page} (h : q.Tidy) : endLine q.newLine.text = q.newLine.text := by
  obtain ⟨c, hc, hfeed⟩ := h
  have hhead : ∃ d ∈ q.text.toList.reverse.head?, decide (d = '\n') = false :=
    ⟨c, by rw [List.head?_reverse]; exact hc, by simpa using hfeed⟩
  rw [endLine, Page.text_newLine, List.reverse_append, List.reverse_singleton, List.singleton_append,
    List.dropWhile_cons_of_pos (by decide), Text.dropWhile_eq_self hhead, List.reverse_reverse,
    ← Page.text_newLine, String.ofList_toList]

/-- The text of a legible schema is scanned as the lexemes of its document. -/
theorem reads_render {s : Schema} (h : s.toDocument.isLegible = true) :
    Scan.Reads s.render.toList (s.toDocument.lexemes ++ [.sign .endOfInput]) := by
  obtain ⟨p, htext, hpage⟩ := s.toDocument.exists_page h
  have hclosed := hpage.pad hpage.line.pad_eq
  rw [render, ← htext]
  rcases hpage.line with rfl | ⟨q, rfl, hq⟩
  · exact hclosed ['\n'] _ (Scan.reads_nil.space (by decide))
  · rw [endLine_of_tidy hq, ← List.append_nil (Page.newLine q).text.toList]
    exact hclosed [] _ Scan.reads_nil

/-- A legible schema is read from its text as a document that recalls the one it was written as. -/
theorem exists_parse_render {s : Schema} (h : s.toDocument.isLegible = true) (name : String) :
    ∃ doc, TypeSystemDocument.parse { name, text := s.render } = .ok doc ∧ s.toDocument.Recalls doc :=
  TypeSystemDocument.exists_parse_of_reads h rfl rfl (reads_render h)

end Schema

end OperationGraph
