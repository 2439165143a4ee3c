import JiuwenCore.Tools.ArgumentValues
import JiuwenCore.Tools.Disk

/-!
# Writing a file

`write_file` reads its path as the other tools do. It looks for its content by itself, and
takes the backslash off every escape.
-/

namespace JiuwenCore.Tools.WriteFileTool

open JsonSyntax

/-! ## The tool -/

/-- The content at the front of a text: a string, or all that is left. -/
def contentText : Str → Str
  | 34 :: rest => scanString escapeDropped rest
  | rest => rest

/-- What is written; `what` is the text of the exception where no directory can be made. -/
def writeContent (what : Str → Str) (disk : Disk) (filePath content : Str) : Answer × Disk :=
  match disk.createDirectories (parentPath filePath) with
  | none => (.text (lit "Error writing file: " ++ what filePath), disk)
  | some disk =>
      match disk.write filePath content with
      | none => (.text (lit "Error: Cannot open file for writing: " ++ filePath), disk)
      | some disk =>
          (.text (lit "Successfully wrote " ++ toDecimal content.length ++ lit " characters to " ++
            filePath), disk)

/-- `WriteFileTool::Invoke`. -/
def invoke (what : Str → Str) (disk : Disk) (input : Str) : Answer × Disk :=
  let filePath := parseStringField input (lit "path")
  if filePath = [] then (.text (lit "Error: 'path' parameter is required"), disk)
  else
    match findFrom (lit "\"content\"") input 0 with
    | none => (.text (lit "Error: 'content' parameter is required"), disk)
    | some contentKeyPos =>
        match findFrom [58] input (contentKeyPos + 9) with
        | none => (.text (lit "Error: invalid input format for 'content'"), disk)
        | some colonPos =>
            match findNonBlank input (colonPos + 1) with
            | none => (.text (lit "Error: 'content' parameter is required"), disk)
            | some valStart =>
                writeContent what disk filePath (contentText (input.drop valStart))

/-! ## What is written where -/

/-- The directories can be made and the file opened. -/
def CanWrite (disk : Disk) (path : Str) : Prop :=
  ∃ disk', disk.createDirectories (parentPath path) = some disk' ∧
    (disk'.write path []).isSome = true

theorem CanWrite.path_ne_nil {disk : Disk} {path : Str} (h : CanWrite disk path) : path ≠ [] := by
  rintro rfl
  obtain ⟨disk', hdisk', -⟩ := h
  cases hdisk'

theorem writeContent_other (what : Str → Str) (disk : Disk) (filePath content : Str)
    {other : Str} (hother : other ≠ filePath) :
    (writeContent what disk filePath content).2.contentOf other = disk.contentOf other := by
  unfold writeContent
  split
  · rfl
  · rename_i disk' hdisk'
    rw [← Disk.createDirectories_contentOf hdisk' other]
    split
    · rfl
    · rename_i hwrite
      exact Disk.write_contentOf_other hwrite hother

theorem writeContent_same (what : Str → Str) {disk : Disk} {filePath : Str}
    (h : CanWrite disk filePath) (content : Str) :
    (writeContent what disk filePath content).2.contentOf filePath = some content := by
  obtain ⟨disk', hdisk', hwrite⟩ := h
  rw [Disk.write_isSome disk' filePath [] content] at hwrite
  obtain ⟨disk'', hdisk''⟩ := Option.isSome_iff_exists.mp hwrite
  rw [writeContent, hdisk']
  simp only [hdisk'']
  exact Disk.write_contentOf hdisk''

/-- The content is looked for as every other argument is. -/
theorem invoke_eq (what : Str → Str) (disk : Disk) {input : Str}
    (hpath : parseStringField input (lit "path") ≠ []) :
    (∃ message, valueOf input (lit "content") = none ∧
        invoke what disk input = (.text message, disk)) ∨
      ∃ value, valueOf input (lit "content") = some value ∧
        invoke what disk input =
          writeContent what disk (parseStringField input (lit "path")) (contentText value) := by
  have hkey : (34 :: lit "content" ++ [34] : Str) = lit "\"content\"" := rfl
  have hlength : (lit "\"content\"").length = 9 := rfl
  simp only [invoke, if_neg hpath, valueOf, hkey, hlength]
  cases findFrom (lit "\"content\"") input 0 with
  | none => exact .inl ⟨_, rfl, rfl⟩
  | some contentKeyPos =>
      simp only
      cases findFrom [58] input (contentKeyPos + 9) with
      | none => exact .inl ⟨_, rfl, rfl⟩
      | some colonPos =>
          simp only
          cases findNonBlank input (colonPos + 1) with
          | none => exact .inl ⟨_, rfl, rfl⟩
          | some valStart => exact .inr ⟨_, rfl, rfl⟩

/-- Only the file whose path is read is written. -/
theorem invoke_other (what : Str → Str) (disk : Disk) {input path : Str}
    (h : path ≠ parseStringField input (lit "path")) :
    (invoke what disk input).2.contentOf path = disk.contentOf path := by
  by_cases hpath : parseStringField input (lit "path") = []
  · simp [invoke, hpath]
  · rcases invoke_eq what disk hpath with ⟨message, -, hinvoke⟩ | ⟨value, -, hinvoke⟩
    · rw [hinvoke]
    · rw [hinvoke]
      exact writeContent_other what disk _ _ h

/-! ## What is written of a call -/

section Call

variable {doc : Document} {pathMember contentMember : Member} {path content : Pieces}

theorem parsePath_iff (hclear : Clear doc (lit "path"))
    (hfind : doc.find (lit "path") = some pathMember) (hvalue : pathMember.value = .string path)
    (hne : path ≠ []) :
    parseStringField doc.text (lit "path") = path.decoded ↔
      Readable [] (lit "path") pathMember path := by
  have hread := scanValue_iff spelling_written hclear
  have hargument : stringArgument doc (lit "path") = path.decoded := by
    rw [stringArgument, Document.valueAt, hfind, Option.map_some, hvalue]
  rw [hargument] at hread
  rw [parseStringField, hread, StringRead, hfind]
  simp [hvalue, hne]

/-- A content that does not stand in the line of its colon is more than its string. -/
theorem contentText_iff {front back : List Member}
    (hown : OwnName doc (lit "content") front contentMember back)
    (hvalue : contentMember.value = .string content) :
    (valueOf doc.text (lit "content")).map contentText = some content.decoded ↔
      Readable [34, 92, 47] (lit "content") contentMember content := by
  rw [Readable, and_iff_right hown.spelled]
  by_cases hline : SameLine contentMember
  · have htext : contentText (contentMember.value.text ++ doc.behind contentMember back) =
        scanPieces escapeDropped content := by
      rw [hvalue, Value.text, List.cons_append, List.append_assoc, List.singleton_append,
        contentText, scanString_text]
    rw [valueOf_sameLine hown hline, Option.map_some, htext, Option.some.injEq,
      spelling_dropped.pieces_iff, and_iff_right hline]
  · refine iff_of_false (fun h => ?_) (fun h => hline h.1)
    obtain ⟨b, rest, hrest, hb⟩ := otherLine_head hline
    have hquote : b ≠ 34 := by
      rintro rfl
      simp at hb
    have htext : contentText (b :: (rest ++ (contentMember.value.text ++
        doc.behind contentMember back))) = b :: (rest ++ (contentMember.value.text ++
          doc.behind contentMember back)) := by
      rw [contentText]
      rintro rest' ⟨⟩
      exact hquote rfl
    rw [valueOf_own hown, hrest, List.cons_append, Option.map_some, htext, hvalue, Value.text,
      Option.some.injEq] at h
    have hlong : content.decoded.length ≤ content.text.length := by
      rw [← scanPieces_written]
      exact length_flatMap_le fun piece _ => spelling_written.length_le piece
    have hlength := congrArg List.length h
    simp only [List.length_cons, List.length_append] at hlength
    omega

end Call

def writeCall (content : Pieces) : Document :=
  .compact [(lit "path", .string (Pieces.ofBytes (lit "d/a.txt"))),
    (lit "content", .string (Pieces.ofBytes (lit "a") ++ content))]

def emptyDirectory : Disk := OrderedMap.empty.insert (lit "d") .directory

end JiuwenCore.Tools.WriteFileTool
