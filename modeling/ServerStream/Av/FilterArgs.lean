import ServerStream.Av.TranscoderConfig
import ServerStream.Text.Fields

/-!
# What a filter graph is told

`parseInputArgs` and `parseOutputArgs` write the description of the pictures that go in
and come out into two lines of text. Here the lines are read back: every number and the
name are found again, whatever their values (`built_from`). So two graphs are told the
same exactly when the decoders agree in all that they give, and the encoders in the
height and the name of the pixel format; the width of the encoder is told to none.
-/

namespace ServerStream

namespace Av

open Exceptions Text

namespace FilterGraph

/-- The line `video_size=..:pix_fmt=..:time_base=..:pixel_aspect=..`, read back. -/
def readInputArgs (args : String) : Option DecoderContext :=
  match args.toList.splitOn ':' with
  | [size, format, base, aspect] => do
      let (width, height) ← (readField "video_size".toList size).bind (readPair 'x')
      let pixFmt ← (readField "pix_fmt".toList format).bind readInt
      let (num, den) ← (readField "time_base".toList base).bind (readPair '/')
      let (num', den') ← (readField "pixel_aspect".toList aspect).bind (readPair '/')
      pure { width, height, pixFmt, timeBase := ⟨num, den⟩,
             sampleAspectRatio := ⟨num', den'⟩ }
  | _ => none

/-- The height and the name in the line `scale='w=-1:h=..',format='..'`. -/
def readOutputArgs (args : String) : Option (ℤ × String) := do
  let rest ← args.toList.dropPrefix? "scale='w=-1:h=".toList
  let height ← readInt (rest.takeWhile fun c => c != '\'')
  let name ← (rest.dropWhile fun c => c != '\'').dropPrefix? "',format='".toList
  pure (height, String.ofList name.dropLast)

variable {filters : Filters} {decoder decoder' : DecoderContext} {codec codec' : AVCodec}
  {encoder encoder' : AVCodecContext} {g g' h h' : FilterGraph}

/-- The line, character by character but for the numbers. -/
theorem parseInputArgs_toList (c : DecoderContext) :
    (parseInputArgs c).toList =
      ("video_size".toList ++ '=' :: (c.width.repr.toList ++ 'x' :: c.height.repr.toList)) ++
        ':' :: (("pix_fmt".toList ++ '=' :: c.pixFmt.repr.toList) ++
        ':' :: (("time_base".toList ++ '=' ::
          (c.timeBase.num.repr.toList ++ '/' :: c.timeBase.den.repr.toList)) ++
        ':' :: ("pixel_aspect".toList ++ '=' :: (c.sampleAspectRatio.num.repr.toList ++
          '/' :: c.sampleAspectRatio.den.repr.toList)))) := by
  have hsize : "video_size=".toList = "video_size".toList ++ ['='] := by decide
  have hformat : "pix_fmt=".toList = "pix_fmt".toList ++ ['='] := by decide
  have hbase : "time_base=".toList = "time_base".toList ++ ['='] := by decide
  have haspect : "pixel_aspect=".toList = "pixel_aspect".toList ++ ['='] := by decide
  have hx : "x".toList = ['x'] := by decide
  have hcolon : ":".toList = [':'] := by decide
  have hslash : "/".toList = ['/'] := by decide
  unfold parseInputArgs
  simp only [String.toList_append, Int.toString_eq_repr]
  rw [hsize, hformat, hbase, haspect, hx, hcolon, hslash]
  simp only [List.append_assoc, List.cons_append, List.nil_append]

/-- A key without an equals sign is read in front of a number, or of two. -/
theorem readField_int {key : List Char} (hkey : '=' ∉ key) (n : ℤ) :
    (readField key (key ++ '=' :: n.repr.toList)).bind readInt = some n := by
  have hequal : '=' ∉ n.repr.toList := notMem_repr (by decide) (by decide) n
  rw [readField_append hkey hequal, Option.bind_some, readInt_repr]

theorem readField_pair {key : List Char} {separator : Char} (hkey : '=' ∉ key)
    (hequal : separator ≠ '=') (hminus : separator ≠ '-') (hdigit : separator.isDigit = false)
    (m n : ℤ) :
    (readField key (key ++ '=' :: (m.repr.toList ++ separator :: n.repr.toList))).bind
      (readPair separator) = some (m, n) := by
  have hnumber (n : ℤ) : '=' ∉ n.repr.toList := notMem_repr (by decide) (by decide) n
  have hvalue : '=' ∉ m.repr.toList ++ separator :: n.repr.toList := by
    simp [hnumber, hequal.symm]
  rw [readField_append hkey hvalue, Option.bind_some, readPair_append hminus hdigit]

theorem readInputArgs_parseInputArgs (c : DecoderContext) :
    readInputArgs (parseInputArgs c) = some c := by
  have hnumber (n : ℤ) : ':' ∉ n.repr.toList := notMem_repr (by decide) (by decide) n
  have hsize : ':' ∉ "video_size".toList ++
      '=' :: (c.width.repr.toList ++ 'x' :: c.height.repr.toList) := by
    simp [hnumber]
  have hformat : ':' ∉ "pix_fmt".toList ++ '=' :: c.pixFmt.repr.toList := by
    simp [hnumber]
  have hbase : ':' ∉ "time_base".toList ++
      '=' :: (c.timeBase.num.repr.toList ++ '/' :: c.timeBase.den.repr.toList) := by
    simp [hnumber]
  have haspect : ':' ∉ "pixel_aspect".toList ++ '=' ::
      (c.sampleAspectRatio.num.repr.toList ++ '/' :: c.sampleAspectRatio.den.repr.toList) := by
    simp [hnumber]
  rw [readInputArgs, parseInputArgs_toList,
    List.splitOn_append_cons_self_of_not_mem hsize,
    List.splitOn_append_cons_self_of_not_mem hformat,
    List.splitOn_append_cons_self_of_not_mem hbase, List.splitOn_eq_singleton haspect]
  dsimp only
  rw [readField_pair (by decide) (by decide) (by decide) (by decide),
    readField_int (by decide), readField_pair (by decide) (by decide) (by decide) (by decide),
    readField_pair (by decide) (by decide) (by decide) (by decide)]
  rfl

theorem parseOutputArgs_toList (filters : Filters) (c : AVCodecContext) :
    (parseOutputArgs filters c).toList =
      "scale='w=-1:h=".toList ++ (c.height.repr.toList ++ '\'' :: (",format='".toList ++
        ((getPixFmtName filters c.pixFmt).toList ++ ['\'']))) := by
  have hcomma : "',".toList = ['\'', ','] := by decide
  have hformat : ",format='".toList = ',' :: "format='".toList := by decide
  have hquote : "'".toList = ['\''] := by decide
  unfold parseOutputArgs
  simp only [String.toList_append, Int.toString_eq_repr]
  rw [hcomma, hformat, hquote]
  simp only [List.append_assoc, List.cons_append, List.nil_append]

theorem readOutputArgs_parseOutputArgs (filters : Filters) (c : AVCodecContext) :
    readOutputArgs (parseOutputArgs filters c) =
      some (c.height, getPixFmtName filters c.pixFmt) := by
  have hquote (n : ℤ) : ∀ d ∈ n.repr.toList, (d != '\'') = true := by
    intro d hd
    have hnot := notMem_repr (c := '\'') (by decide) (by decide) n
    exact bne_iff_ne.mpr fun heq => hnot (heq ▸ hd)
  have hformat : "',format='".toList = '\'' :: ",format='".toList := by decide
  rw [readOutputArgs, parseOutputArgs_toList, List.dropPrefix?_append_of_beq _ (beq_self_eq_true _)]
  simp only [Option.bind_eq_bind, Option.bind_some]
  rw [List.takeWhile_append_of_pos (hquote _), List.dropWhile_append_of_pos (hquote _),
    List.takeWhile_cons_of_neg (by decide), List.dropWhile_cons_of_neg (by decide),
    List.append_nil, readInt_repr, Option.bind_some, ← List.cons_append, ← hformat,
    List.dropPrefix?_append_of_beq _ (beq_self_eq_true _), Option.bind_some,
    List.dropLast_concat, String.ofList_toList]
  rfl

/-- Both lines of a graph that has been built can be read back, so two graphs are told
the same exactly when the decoders' contexts are equal and the encoders have the same
height and name of the pixel format. -/
theorem built_from (hg : init filters decoder codec encoder g = .ok () g')
    (hh : init filters decoder' codec' encoder' h = .ok () h') :
    readInputArgs g'.inputArgs = some decoder ∧
    readOutputArgs g'.outputArgs =
      some (encoder.height, getPixFmtName filters encoder.pixFmt) ∧
    ((g'.inputArgs = h'.inputArgs ∧ g'.outputArgs = h'.outputArgs) ↔
      decoder = decoder' ∧ encoder.height = encoder'.height ∧
        getPixFmtName filters encoder.pixFmt = getPixFmtName filters encoder'.pixFmt) := by
  obtain ⟨-, -, -, hin, hout⟩ := init_ok hg
  obtain ⟨-, -, -, hin', hout'⟩ := init_ok hh
  rw [hin, hout, hin', hout']
  refine ⟨readInputArgs_parseInputArgs _, readOutputArgs_parseOutputArgs _ _, ?_⟩
  constructor
  · rintro ⟨hin, hout⟩
    have hdecoder := congrArg readInputArgs hin
    have hencoder := congrArg readOutputArgs hout
    rw [readInputArgs_parseInputArgs, readInputArgs_parseInputArgs] at hdecoder
    rw [readOutputArgs_parseOutputArgs, readOutputArgs_parseOutputArgs] at hencoder
    obtain ⟨hheight, hname⟩ := Prod.mk.inj (Option.some.inj hencoder)
    exact ⟨Option.some.inj hdecoder, hheight, hname⟩
  · rintro ⟨rfl, hheight, hname⟩
    refine ⟨rfl, ?_⟩
    rw [← String.toList_inj, parseOutputArgs_toList, parseOutputArgs_toList, hheight, hname]

/-- An encoder of pictures of this width and a height of 720. -/
def encoderOfWidth (width : ℤ) : AVCodecContext where
  isVideo := true
  codecId := 1
  globalHeader := false
  width := width
  height := 720
  bitRate := 400000
  timeBase := ⟨1, 30⟩
  framerate := ⟨30, 1⟩
  pixFmt := 0
  maxBFrames := 0
  gopSize := 12
  qblur := .null
  qmax := 31
  qmin := 2
  compressionLevel := -1

theorem built_from_encoderOfWidth :
    ∃ g g', init Setup.scaling Setup.camera ⟨1, none⟩ (encoderOfWidth 1280) new = .ok () g ∧
      init Setup.scaling Setup.camera ⟨1, none⟩ (encoderOfWidth 960) new = .ok () g' ∧
      readInputArgs g.inputArgs = some Setup.camera ∧
      g.inputArgs = g'.inputArgs ∧ g.outputArgs = g'.outputArgs := by
  have hinit (width : ℤ) : ∃ g, init Setup.scaling Setup.camera ⟨1, none⟩
      (encoderOfWidth width) new = .ok () g := ⟨_, rfl⟩
  obtain ⟨g, hg⟩ := hinit 1280
  obtain ⟨g', hg'⟩ := hinit 960
  obtain ⟨hin, -, hsame⟩ := built_from hg hg'
  exact ⟨g, g', hg, hg', hin, hsame.mpr ⟨rfl, rfl, rfl⟩⟩

end FilterGraph

end Av

end ServerStream
