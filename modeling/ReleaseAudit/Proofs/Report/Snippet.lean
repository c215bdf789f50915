import ReleaseAudit.Proofs.Text.Lines
import ReleaseAudit.Report.Snippet

/-!
# Snippets line up with the source

The row under a source line has a dash under each character of the creation that
the line shows, and before the dashes as much room as the line takes there.
-/

namespace ReleaseAudit.Report

set_option autoImplicit false

open Source (Document Node)
open Verdict (Diagnostic Location)

def firstLineLength (text : String) : Nat :=
  if '\n' ∈ text.toList then ((Text.lines text).headD "").length else text.length

theorem length_blanks (count : Nat) : (blanks count).length = count := by
  simp [blanks]

theorem length_align_right {width : Nat} {text : String} (fits : text.length ≤ width) :
    (alignRight width text).length = width := by
  rw [alignRight, String.length_append, length_blanks]
  omega

theorem length_line_number (diagnostic : Diagnostic) :
    (alignRight (gutterWidth diagnostic)
      (toString (diagnostic.location.startLine + 1))).length = gutterWidth diagnostic :=
  length_align_right (Nat.le_max_left _ _)

theorem length_underline_padding {shown : List Char} {column : Nat}
    (within : column ≤ shown.length) : (underlinePadding shown column).length = column := by
  simp [underlinePadding, within]

theorem get_elem_underline_padding {shown : List Char} {column place : Nat}
    (within : column ≤ shown.length) (before : place < column) :
    (underlinePadding shown column)[place]? =
      some (if shown[place]? = some '\t' then '\t' else ' ') := by
  have inLine : place < shown.length := Nat.lt_of_lt_of_le before within
  simp [underlinePadding, before, inLine]

theorem rows_of_line {sources : Sources} {diagnostic : Diagnostic} {line : String}
    (found : sources.line? diagnostic.location.path diagnostic.location.startLine = some line) :
    (rows sources diagnostic)[3]? =
        some (alignRight (gutterWidth diagnostic)
          (toString (diagnostic.location.startLine + 1)) ++ " │ " ++ line) ∧
      (rows sources diagnostic)[4]? =
        some (blanks (gutterWidth diagnostic) ++ " │ " ++ underline diagnostic line.toList) := by
  simp [rows, found, snippetRows]

theorem line_of_text {sources : Sources} {path text : String}
    (known : sources.text? path = some text) (index : Nat) :
    sources.line? path index = (Text.lines text)[index]? := by
  rw [Sources.line?, Sources.lines, known]
  rfl

theorem render_text_append (sources : Sources) (earlier : List Diagnostic) (diagnostic : Diagnostic)
    (later : List Diagnostic) :
    renderText sources (earlier ++ diagnostic :: later) =
      renderText sources earlier ++
        (String.join ((rows sources diagnostic).map (· ++ "\n")) ++ "\n") ++
          renderText sources later := by
  rw [renderText, List.map_append, List.map_cons, String.join_append, String.join_cons,
    ← String.append_assoc]
  rfl

theorem position_of_split {before : String} (small : before.utf8ByteSize < UInt32.size)
    (after : String) :
    (Text.position (before ++ after) before.utf8ByteSize).line.toNat = before.toList.count '\n' ∧
      (Text.position (before ++ after) before.utf8ByteSize).column.toNat =
        (before.toList.rtakeWhile (· != '\n')).length := by
  have counted := @Text.position_to_nat (before ++ after) _ small
  rwa [Text.row, Text.lineBefore, Text.chars_before_of_split] at counted

/-- A node with a text of its own, and the texts around it. -/
structure Cut (document : Document) (node : Node) (before inside after : String) : Prop where
  text : document.text = before ++ inside ++ after
  inside_ne : inside ≠ ""
  start : node.start = before.utf8ByteSize
  stop : node.stop = (before ++ inside).utf8ByteSize

section Cut

variable {document : Document} {node : Node} {before inside after : String}

theorem Cut.slice (cut : Cut document node before inside after) :
    Text.slice document.text node.start node.stop = inside := by
  rw [cut.text, cut.start, cut.stop, Text.slice_of_split]

theorem Cut.slice_rest (cut : Cut document node before inside after) :
    Text.slice document.text node.start document.text.utf8ByteSize = inside ++ after := by
  have whole := Text.slice_of_split before (inside ++ after) ""
  rwa [String.append_empty, ← String.append_assoc, ← cut.text, ← cut.start] at whole

theorem Cut.of_node (cut : Cut document node before inside after) :
    Location.ofNode document node =
      ⟨document.path, node.start, node.stop, before.toList.count '\n',
        (before.toList.rtakeWhile (· != '\n')).length, (before ++ inside).toList.count '\n',
        ((before ++ inside).toList.rtakeWhile (· != '\n')).length⟩ := by
  have startSmall : node.start < UInt32.size := node.label.startByte.toNat_lt
  have stopSmall : node.stop < UInt32.size := node.label.stopByte.toNat_lt
  rw [cut.start] at startSmall
  rw [cut.stop] at stopSmall
  have start := position_of_split startSmall (inside ++ after)
  have stop := position_of_split stopSmall after
  rw [← String.append_assoc] at start
  rw [← cut.text, ← cut.start] at start
  rw [← cut.text, ← cut.stop] at stop
  rw [Location.ofNode, start.1, start.2, stop.1, stop.2]

/-- The line on which a node begins: what stands before the node on it, and the first line of the
rest. -/
theorem Cut.exists_line_at (cut : Cut document node before inside after)
    (visible : ¬ Text.BeginsLineBreak
      (Text.slice document.text node.start document.text.utf8ByteSize).toList) :
    ∃ first : List Char, first ≠ [] ∧ first <+: inside.toList ++ after.toList ∧
      (Text.lineChars (inside ++ after).toList).head? = some first ∧
      Text.LineAt document.text node.start (before.toList.count '\n')
        (String.ofList (before.toList.rtakeWhile (· != '\n') ++ first)) := by
  rw [cut.slice_rest] at visible
  have restSome : inside ++ after ≠ "" := by
    intro nothing
    exact cut.inside_ne (String.append_eq_empty_iff.mp nothing).1
  obtain ⟨first, firstSome, isPrefix, isFirst, lineAt⟩ :=
    Text.exists_line_at before restSome visible
  rw [← String.append_assoc, ← cut.text, ← cut.start] at lineAt
  rw [String.toList_append] at isPrefix
  exact ⟨first, firstSome, isPrefix, isFirst, lineAt⟩

end Cut

theorem head_of_beginning {character : Char} {rest inside after : List Char} (some : inside ≠ [])
    (begins : character :: rest <+: inside ++ after) : inside.head? = Option.some character := by
  obtain ⟨head, tail, rfl⟩ := List.exists_cons_of_ne_nil some
  rw [List.cons_append, List.cons_prefix_cons] at begins
  rw [begins.1]
  rfl

/-- The dashes are as many as the characters that the creation has on its first line: to the end
of the creation on one line, to the end of the line otherwise. -/
theorem underline_width_eq {diagnostic : Diagnostic} {path : String} {startByte endByte : Nat}
    {before inside after : String} {first : List Char}
    (located : diagnostic.location =
      ⟨path, startByte, endByte, before.toList.count '\n',
        (before.toList.rtakeWhile (· != '\n')).length, (before ++ inside).toList.count '\n',
        ((before ++ inside).toList.rtakeWhile (· != '\n')).length⟩)
    (insideSome : inside ≠ "") (firstSome : first ≠ [])
    (isFirst : (Text.lineChars (inside ++ after).toList).head? = some first) :
    underlineWidth diagnostic (before.toList.rtakeWhile (· != '\n') ++ first) =
      firstLineLength inside := by
  unfold underlineWidth firstLineLength
  dsimp only
  rw [located]
  dsimp only
  rw [String.toList_append, List.count_append]
  by_cases broken : '\n' ∈ inside.toList
  · have further : ¬ before.toList.count '\n' + inside.toList.count '\n' =
        before.toList.count '\n' := by
      have positive := List.count_pos_iff.mpr broken
      omega
    have shown : (Text.lines inside).headD "" = String.ofList first := by
      rw [String.toList_append, Text.head_line_chars_append broken] at isFirst
      rw [Text.lines, List.headD_eq_head?_getD, List.head?_map, isFirst]
      rfl
    have positive := List.length_pos_iff.mpr firstSome
    rw [if_neg further, if_pos broken, shown, String.length_ofList, List.length_append,
      Nat.add_sub_cancel_left]
    omega
  · have positive : 0 < inside.length := by
      rw [← String.length_toList, List.length_pos_iff]
      exact mt String.toList_eq_nil_iff.mp insideSome
    rw [List.count_eq_zero.mpr broken, Nat.add_zero, if_pos rfl, if_neg broken,
      Text.rtake_while_append_of_not_mem _ broken, List.length_append, Nat.add_sub_cancel_left,
      String.length_toList]
    omega

/-- Where the creation does not begin with a line break, the report shows the line on which it
begins. The first character of the creation stands at the diagnostic's column of that line, and the
row below has room of the same width before its dashes, tabs under tabs. There is a dash for each
character of the creation, up to the end of its first line. -/
theorem rows_underline_aligned (sources : Sources) (document : Document) (node : Node)
    (diagnostic : Diagnostic) (known : sources.text? document.path = some document.text)
    (located : diagnostic.location = Location.ofNode document node)
    (startValid : String.Pos.Raw.IsValid document.text ⟨node.start⟩)
    (stopValid : String.Pos.Raw.IsValid document.text ⟨node.stop⟩) (lt : node.start < node.stop)
    (visible : ¬ Text.BeginsLineBreak
      (Text.slice document.text node.start document.text.utf8ByteSize).toList) :
    let location := diagnostic.location
    let width := gutterWidth diagnostic
    let number := alignRight width (toString (location.startLine + 1))
    let created := Text.slice document.text node.start node.stop
    ∃ (line : String) (padding : List Char) (character : Char),
      Text.LineAt document.text node.start location.startLine line ∧
      line.toList[location.startColumn]? = some character ∧
      created.toList.head? = some character ∧
      (rows sources diagnostic)[3]? = some (number ++ " │ " ++ line) ∧
      (rows sources diagnostic)[4]? =
        some (blanks width ++ " │ " ++
          String.ofList (padding ++ List.replicate (firstLineLength created) '─')) ∧
      number.length = width ∧ (blanks width).length = width ∧
      padding.length = location.startColumn ∧
      (∀ place < location.startColumn,
        padding[place]? = some (if line.toList[place]? = some '\t' then '\t' else ' ')) ∧
      ∀ earlier later,
        renderText sources (earlier ++ diagnostic :: later) =
          renderText sources earlier ++
            (String.join ((rows sources diagnostic).map (· ++ "\n")) ++ "\n") ++
              renderText sources later := by
  intro location width number created
  obtain ⟨before, inside, after, isText, insideSome, isStart, isStop⟩ :=
    Text.exists_split_of_lt startValid stopValid lt
  have cut : Cut document node before inside after := ⟨isText, insideSome, isStart, isStop⟩
  have isCreated : created = inside := cut.slice
  obtain ⟨first, firstSome, firstPrefix, isFirst, lineAt⟩ := cut.exists_line_at visible
  have isLocation := located.trans cut.of_node
  have dashes := underline_width_eq isLocation insideSome firstSome isFirst
  have startLine : location.startLine = before.toList.count '\n' :=
    congrArg Location.startLine isLocation
  have startColumn : location.startColumn = (before.toList.rtakeWhile (· != '\n')).length :=
    congrArg Location.startColumn isLocation
  rw [← startLine] at lineAt
  generalize before.toList.rtakeWhile (· != '\n') = left at *
  have within : location.startColumn ≤ (left ++ first).length := by
    rw [startColumn, List.length_append]
    omega
  have found : sources.line? location.path location.startLine =
      some (String.ofList (left ++ first)) := by
    have isPath : location.path = document.path := congrArg Location.path located
    rw [isPath, line_of_text known, lineAt.listed]
  obtain ⟨sourceRow, underlineRow⟩ := rows_of_line found
  rw [String.toList_ofList, underline, dashes, ← isCreated] at underlineRow
  obtain ⟨character, rest, rfl⟩ := List.exists_cons_of_ne_nil firstSome
  refine ⟨String.ofList (left ++ character :: rest), _, character, lineAt, ?_, ?_, sourceRow,
    underlineRow, length_line_number diagnostic, length_blanks width,
    length_underline_padding within, ?_,
    fun earlier later => render_text_append sources earlier diagnostic later⟩
  · rw [String.toList_ofList, startColumn]
    simp
  · rw [isCreated]
    exact head_of_beginning (mt String.toList_eq_nil_iff.mp insideSome) firstPrefix
  · intro place before
    rw [String.toList_ofList]
    exact get_elem_underline_padding within before

def tabbedNode : Node :=
  Node.root (.node ⟨.objectCreationExpression, true, none, 4, 9, "bé\nc"⟩ [])

def tabbedDocument : Document :=
  ⟨"Program.cs", "a\r\n\tbé\ncd", tabbedNode.tree⟩

def tabbedDiagnostic : Diagnostic where
  id := "unreleased"
  severity := .warning
  holder := .anonymous
  origin := .objectCreation
  location := .ofNode tabbedDocument tabbedNode
  variableName := none
  typeName := "Stream"

theorem rows_underline_aligned_tab :
    String.Pos.Raw.IsValid tabbedDocument.text ⟨4⟩ ∧
      String.Pos.Raw.IsValid tabbedDocument.text ⟨9⟩ ∧
      Text.LineAt tabbedDocument.text 4 1 "\tbé" ∧
      ∃ padding : List Char, padding[0]? = some '\t' ∧
        (rows ⟨[("Program.cs", tabbedDocument.text)]⟩ tabbedDiagnostic)[4]? =
          some (blanks 2 ++ " │ " ++ String.ofList (padding ++ List.replicate 2 '─')) := by
  have startValid : String.Pos.Raw.IsValid tabbedDocument.text ⟨4⟩ :=
    String.Pos.Raw.isValid_iff_exists_append.mpr ⟨"a\r\n\t", "bé\ncd", by decide, by decide⟩
  have stopValid : String.Pos.Raw.IsValid tabbedDocument.text ⟨9⟩ :=
    String.Pos.Raw.isValid_iff_exists_append.mpr ⟨"a\r\n\tbé\nc", "d", by decide, by decide⟩
  obtain ⟨line, padding, -, lineAt, -, -, -, underlineRow, -, -, -, tabs, -⟩ :=
    rows_underline_aligned ⟨[("Program.cs", tabbedDocument.text)]⟩ tabbedDocument tabbedNode
      tabbedDiagnostic (by decide) rfl startValid stopValid (by decide) (by decide)
  have isLine : line = "\tbé" := by
    have listed : (Text.lines tabbedDocument.text)[1]? = some "\tbé" := by decide
    exact Option.some.inj (lineAt.listed.symm.trans listed)
  subst isLine
  have widths : gutterWidth tabbedDiagnostic = 2 ∧
      firstLineLength (Text.slice tabbedDocument.text tabbedNode.start tabbedNode.stop) = 2 := by
    decide
  rw [widths.1, widths.2] at underlineRow
  exact ⟨startValid, stopValid, lineAt, padding, tabs 0 (by decide), underlineRow⟩

end ReleaseAudit.Report
