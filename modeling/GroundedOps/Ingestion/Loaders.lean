import GroundedOps.Library.FileTree
import GroundedOps.Library.Lists
import GroundedOps.Ingestion.Indexer
import GroundedOps.Python.JsonDecoder

/-!
# Corpus loaders

The seed files as a uniform list of source documents. Line ends are translated when a file
is read.
-/

namespace GroundedOps.Ingestion

open Python

abbrev Files := FileTree Text Text

/-- Errors of the file system are exceptions that no handler of the program inspects. -/
def fileOp {α : Type} : Except FileError α → Except Exn α
  | .ok a => .ok a
  | .error .exists => .error (.other "FileExistsError".toList)
  | .error .notFound => .error (.other "FileNotFoundError".toList)
  | .error .isADirectory => .error (.other "IsADirectoryError".toList)
  | .error .notADirectory => .error (.other "NotADirectoryError".toList)

def universalNewlines : Text → Text
  | [] => []
  | '\r' :: '\n' :: s => '\n' :: universalNewlines s
  | '\r' :: s => '\n' :: universalNewlines s
  | c :: s => c :: universalNewlines s

/-- `path.read_text(encoding="utf-8")` -/
def readText (t : Files) (p : List Text) : Except Exn Text := do
  let content ← fileOp (t.read p)
  return universalNewlines content

def chopLineEnd (line : Text) : Text :=
  match line.reverse with
  | '\n' :: '\r' :: s => s.reverse
  | c :: s => if lineEnds.contains c.toNat then s.reverse else line
  | [] => []

/-- `str.splitlines()` -/
def lines (s : Text) : List Text := (splitlines s).map chopLineEnd

def markdownTitle (text fallback : Text) : Text :=
  match (lines text).find? fun line => "# ".toList.isPrefixOf (strip line) with
  | some line => strip ((strip line).drop 2)
  | none => fallback

section Tickets

variable {F : Type} (py : Interpreter F)

/-- `rec[key]`, where only a string can become a part of a `SourceDoc`. -/
def textAt (key : Text) : Json F → Except Exn Text
  | .obj members =>
    match Json.lookup key members with
    | some (.str s) => .ok s
    | some _ => .error .typeError
    | none => .error (.other "KeyError".toList)
  | _ => .error .typeError

def ticketDoc (line : Text) : Except Exn SourceDoc := do
  let rec ← Json.loads py line
  let id ← textAt "id".toList rec
  let title ← textAt "title".toList rec
  let body ← textAt "body".toList rec
  return ⟨id, "ticket".toList, title, title ++ "\n\n".toList ++ body, false⟩

def loadTickets (t : Files) (p : List Text) : Except Exn (List SourceDoc) := do
  if t.contains p then
    let text ← readText t p
    ((lines text).filter fun line => !(strip line).isEmpty).mapM (ticketDoc py)
  else return []

end Tickets

/-- `path.stem`: the name without what follows its last dot. -/
def stem (name : Text) : Text :=
  let i := name.length - (name.reverse.takeWhile (· ≠ '.')).length - 1
  if '.' ∈ name ∧ 0 < i ∧ i < name.length - 1 then name.take i else name

def markdownDoc (t : Files) (directory : List Text) (sourceType name : Text) :
    Except Exn SourceDoc := do
  let text ← readText t (directory ++ [name])
  return ⟨stem name, sourceType, markdownTitle text (stem name), text, true⟩

def loadMarkdownDir (t : Files) (directory : List Text) (sourceType : Text) :
    Except Exn (List SourceDoc) := do
  if t.contains directory then
    let names := (t.children directory).filter fun name => ".md".toList.isSuffixOf name
    (names.insertionSort (· ≤ ·)).mapM (markdownDoc t directory sourceType)
  else return []

/-- Load tickets, postmortems, and runbooks from the seed directory. -/
def loadCorpus {F : Type} (py : Interpreter F) (t : Files) (seedDir : List Text) :
    Except Exn (List SourceDoc) := do
  let tickets ← loadTickets py t (seedDir ++ ["tickets.jsonl".toList])
  let postmortems ← loadMarkdownDir t (seedDir ++ ["postmortems".toList]) "postmortem".toList
  let runbooks ← loadMarkdownDir t (seedDir ++ ["runbooks".toList]) "runbook".toList
  return tickets ++ postmortems ++ runbooks

example : markdownTitle "intro\n  # A title \n".toList "x".toList = "A title".toList := by decide

/-! ### Reading back -/

theorem universalNewlines_eq_self {s : Text} (h : '\r' ∉ s) : universalNewlines s = s := by
  induction s using universalNewlines.induct with
  | case1 => rfl
  | case2 s ih => simp at h
  | case3 s _ ih => simp at h
  | case4 c s hcr hc ih =>
    rw [universalNewlines]
    · rw [ih (fun hs => h (by simp [hs]))]
    · exact hcr
    · exact hc

/-- A text within one line. -/
def Plain (s : Text) : Prop := ∀ c ∈ s, c.toNat ∉ lineEnds

instance (s : Text) : Decidable (Plain s) :=
  List.decidableBAll (fun c : Char => c.toNat ∉ lineEnds) s

theorem plain_append {s t : Text} : Plain (s ++ t) ↔ Plain s ∧ Plain t := List.forall_mem_append

theorem splitlines_plain {s : Text} (h : Plain s) (t : Text) :
    splitlines (s ++ '\n' :: t) = (s ++ ['\n']) :: splitlines t := by
  induction s with
  | nil =>
    rw [List.nil_append, splitlines]
    · rfl
    · nofun
  | cons c s ih =>
    have hc := h c (by simp)
    have hcr : c ≠ '\r' := by
      rintro rfl
      exact hc (by decide)
    rw [List.cons_append, splitlines, ih fun d hd => h d (by simp [hd])]
    · simp [hc, consLine]
    · intro u hu
      exact absurd hu hcr

theorem lines_plain {s : Text} (h : Plain s) (t : Text) :
    lines (s ++ '\n' :: t) = s :: lines t := by
  have hchop : chopLineEnd (s ++ ['\n']) = s := by
    rw [chopLineEnd, List.reverse_append, List.reverse_singleton, List.singleton_append]
    split
    · rename_i u hu
      obtain ⟨-, hu⟩ := List.cons_eq_cons.mp hu
      have hmem : '\r' ∈ s := by
        rw [← List.mem_reverse, hu]
        simp
      exact absurd (h '\r' hmem) (by decide)
    · rename_i hu
      obtain ⟨rfl, rfl⟩ := List.cons_eq_cons.mp hu
      rw [List.reverse_reverse]
      rfl
    · rename_i hu
      cases hu
  rw [lines, splitlines_plain h, List.map_cons, hchop, lines]

theorem lines_flatMap {ls : List Text} (h : ∀ l ∈ ls, Plain l) :
    lines (ls.flatMap fun l => l ++ ['\n']) = ls := by
  induction ls with
  | nil => rfl
  | cons l ls ih =>
    rw [List.flatMap_cons, List.append_assoc, List.singleton_append, lines_plain (h l (by simp)),
      ih fun m hm => h m (by simp [hm])]

/-- A title that stands as it is behind the mark of a heading. -/
structure Title (s : Text) : Prop where
  plain : Plain s
  first : ∀ c ∈ s.head?, isSpace c = false
  last : ∀ c ∈ s.getLast?, isSpace c = false
  ne_nil : s ≠ []

theorem Title.strip {s : Text} (h : Title s) : strip s = s := stripBy_eq_self h.first h.last

theorem markdownTitle_heading {title : Text} (h : Title title) (body fallback : Text) :
    markdownTitle ("# ".toList ++ title ++ '\n' :: body) fallback = title := by
  have hplain : Plain ("# ".toList ++ title) := plain_append.mpr ⟨by decide, h.plain⟩
  have hstrip : Python.strip ("# ".toList ++ title) = "# ".toList ++ title := by
    apply stripBy_eq_self
    · rintro c ⟨⟩
      rfl
    · intro c hc
      rw [List.getLast?_append_of_ne_nil _ h.ne_nil] at hc
      exact h.last c hc
  have hmark : "# ".toList.isPrefixOf (Python.strip ("# ".toList ++ title)) = true := by
    rw [hstrip]
    rfl
  have hfind : (("# ".toList ++ title) :: lines body).find?
      (fun line => "# ".toList.isPrefixOf (Python.strip line)) = some ("# ".toList ++ title) :=
    List.find?_cons_of_pos hmark
  rw [markdownTitle, lines_plain hplain, hfind]
  calc Python.strip ((Python.strip ("# ".toList ++ title)).drop 2)
      _ = Python.strip title := by rw [hstrip]; rfl
      _ = title := h.strip

theorem stem_md {name : Text} (h : name ≠ []) : stem (name ++ ".md".toList) = name := by
  have hreverse : (name ++ ".md".toList).reverse = 'd' :: 'm' :: '.' :: name.reverse := by simp
  have hsuffix : ((name ++ ".md".toList).reverse.takeWhile (· ≠ '.')).length = 2 := by
    rw [hreverse]
    rfl
  have hlength : (name ++ ".md".toList).length = name.length + 3 := by simp
  have hpos : 0 < name.length := List.length_pos_iff.mpr h
  have hdot : '.' ∈ name ++ ".md".toList := by simp
  have hindex : name.length + 3 - 2 - 1 = name.length := by omega
  rw [stem, hsuffix, hlength, hindex, if_pos ⟨hdot, hpos, by omega⟩, List.take_left]

theorem fileOp_read {t : Files} {p : List Text} {content : Text}
    (h : t.get? p = some (some content)) : fileOp (t.read p) = .ok content := by
  rw [FileTree.read_eq_ok.mpr h]
  rfl

theorem readText_eq_ok {t : Files} {p : List Text} {content : Text}
    (h : t.get? p = some (some content)) (hreturn : '\r' ∉ content) :
    readText t p = .ok content := by
  rw [readText, fileOp_read h, ok_bind, universalNewlines_eq_self hreturn]
  rfl

/-- What the loader makes of a Markdown file. -/
def loadedDoc (sourceType name title text : Text) : SourceDoc :=
  ⟨name, sourceType, title, text, true⟩

theorem markdownDoc_eq_ok {t : Files} {directory : List Text} {name title body : Text}
    (sourceType : Text) (hname : name ≠ []) (htitle : Title title)
    (hfile : t.get? (directory ++ [name ++ ".md".toList]) =
      some (some ("# ".toList ++ title ++ '\n' :: body)))
    (hreturn : '\r' ∉ "# ".toList ++ title ++ '\n' :: body) :
    markdownDoc t directory sourceType (name ++ ".md".toList) =
      .ok (loadedDoc sourceType name title ("# ".toList ++ title ++ '\n' :: body)) := by
  rw [markdownDoc, readText_eq_ok hfile hreturn, ok_bind, stem_md hname,
    markdownTitle_heading htitle]
  rfl

/-- A directory whose entries are the given files, one for each of the documents, is loaded
as these documents, in some order. -/
theorem loadMarkdownDir_perm {α : Type} {t : Files} {directory : List Text} (sourceType : Text)
    {docs : List α} {name : α → Text} {doc : α → SourceDoc} (hdir : t.contains directory = true)
    (hentries : ∀ n, t.contains (directory ++ [n]) = true ↔
      n ∈ docs.map fun d => name d ++ ".md".toList)
    (hnodup : (docs.map name).Nodup)
    (hdoc : ∀ d ∈ docs, markdownDoc t directory sourceType (name d ++ ".md".toList) =
      .ok (doc d)) :
    ∃ loaded, loadMarkdownDir t directory sourceType = .ok loaded ∧
      loaded.Perm (docs.map doc) := by
  have hfiles : (docs.map fun d => name d ++ ".md".toList).Nodup := by
    have hinj : Function.Injective fun n : Text => n ++ ".md".toList :=
      fun m n h => List.append_cancel_right h
    have hmap := hnodup.map hinj
    rwa [List.map_map] at hmap
  have hchildren : (t.children directory).Perm (docs.map fun d => name d ++ ".md".toList) := by
    apply (List.perm_ext_iff_of_nodup (t.nodup_children directory) hfiles).mpr
    intro n
    rw [FileTree.mem_children, hentries]
  have hsuffix : (t.children directory).filter (fun n => ".md".toList.isSuffixOf n) =
      t.children directory := by
    apply List.filter_eq_self.mpr
    intro n hn
    obtain ⟨d, -, rfl⟩ := List.mem_map.mp (hchildren.mem_iff.mp hn)
    exact List.isSuffixOf_iff_suffix.mpr (List.suffix_append _ _)
  have hsorted : ((t.children directory).insertionSort (· ≤ ·)).Perm
      (docs.map fun d => name d ++ ".md".toList) :=
    (List.perm_insertionSort _ _).trans hchildren
  obtain ⟨docs', hdocs', hperm⟩ := exists_perm_of_perm_map hsorted
  have hmap : (docs'.map fun d => name d ++ ".md".toList).mapM
      (markdownDoc t directory sourceType) = .ok (docs'.map doc) := by
    rw [List.mapM_map]
    exact mapM_ok_map fun d hd => hdoc d (hperm.mem_iff.mp hd)
  refine ⟨docs'.map doc, ?_, hperm.map doc⟩
  rw [loadMarkdownDir, if_pos hdir, hsuffix]
  dsimp only
  rw [hdocs', hmap]

theorem plain_of_printable {s : Text} (h : Json.Printable s) : Plain s := by
  intro c hc
  have hcode := h c hc
  simp only [lineEnds, List.mem_cons, List.not_mem_nil, or_false]
  omega

theorem return_notMem_of_printable {s : Text} (h : Json.Printable s) : '\r' ∉ s :=
  fun hs => absurd (h '\r' hs) (by decide)

/-- Lines that hold one written object each are loaded one by one. -/
theorem loadTickets_eq_ok {F α : Type} (py : Interpreter F) {t : Files} {p : List Text}
    {tickets : List α} {line : α → Text} {doc : α → SourceDoc}
    (hfile : t.get? p = some (some (tickets.flatMap fun d => line d ++ ['\n'])))
    (hline : ∀ d ∈ tickets, Json.Printable (line d) ∧ (line d).head? = some '{')
    (hdoc : ∀ d ∈ tickets, ticketDoc py (line d) = .ok (doc d)) :
    loadTickets py t p = .ok (tickets.map doc) := by
  have hreturn : '\r' ∉ tickets.flatMap fun d => line d ++ ['\n'] := by
    intro h
    obtain ⟨d, hd, hmem⟩ := List.mem_flatMap.mp h
    rcases List.mem_append.mp hmem with hmem | hmem
    · exact return_notMem_of_printable (hline d hd).1 hmem
    · exact absurd hmem (by decide)
  have hlines : lines (tickets.flatMap fun d => line d ++ ['\n']) = tickets.map line := by
    rw [← List.flatMap_map line fun l => l ++ ['\n']]
    apply lines_flatMap
    intro l hl
    obtain ⟨d, hd, rfl⟩ := List.mem_map.mp hl
    exact plain_of_printable (hline d hd).1
  have hfilter : (tickets.map line).filter (fun l => !(strip l).isEmpty) = tickets.map line := by
    apply List.filter_eq_self.mpr
    intro l hl
    obtain ⟨d, hd, rfl⟩ := List.mem_map.mp hl
    obtain ⟨w, hw⟩ := List.head?_eq_some_iff.mp (hline d hd).2
    have hne : strip (line d) ≠ [] := by
      rw [hw, strip, stripBy, List.dropWhile_cons_of_neg (by decide), ne_eq,
        List.rdropWhile_eq_nil_iff]
      intro h
      exact absurd (h '{' (by simp)) (by decide)
    simpa using hne
  have hcontains : t.contains p = true := by
    rw [FileTree.contains, hfile]
    rfl
  rw [loadTickets, if_pos hcontains, readText_eq_ok hfile hreturn, ok_bind, hlines, hfilter,
    List.mapM_map]
  exact mapM_ok_map hdoc

end GroundedOps.Ingestion
