import TaintFlow.Check.Shape
import TaintFlow.PatternFile
import TaintFlow.Proofs.Growth

/-
Reading patterns that pass the check of pattern files. The check asks for lists of texts under the three kinds of names,
and the plain edition reads them so. The scoped edition reads each sanitizer as a pair, a name with its mode, and of
a text these are the first two letters. So a text of fewer letters cannot be read, and of a longer one the first
letter becomes the name of the sanitizer. What is read is what is listed only where no sanitizer is listed.
-/
namespace TaintFlow

open Listing

/-! ## Lists of texts -/

/-- The texts of the list under a key. -/
def Document.texts (d : Document) (key : String) : List String :=
  match d.get key with
  | .ok (.list items) => PatternFile.names items
  | _ => []

theorem PatternFile.names_map_text (l : List String) : PatternFile.names (l.map .text) = l := by
  rw [PatternFile.names, List.filterMap_map]
  exact List.filterMap_some

theorem PatternFile.map_text_names : ∀ {items : List Document}, (∀ x ∈ items, Check.isText x = true) →
    (PatternFile.names items).map .text = items
  | [], _ => rfl
  | x :: items, h => by
    rw [List.forall_mem_cons] at h
    cases x with
    | text s => exact congrArg (Document.text s :: ·) (map_text_names h.2)
    | _ => cases h.1

/-- The set of texts is the list without repetitions. -/
theorem PatternFile.set_texts (l : List String) :
    PatternFile.set (.list (l.map .text)) = .ok ((distinct l).map .text) := by
  have hkeys : (l.map Document.text).all Document.isKey = true := by
    rw [List.all_map, List.all_eq_true]
    exact fun _ _ => rfl
  have hfold : ∀ (l seen : List String),
      (l.map Document.text).foldl (fun s d => if s.any (Document.alike d) then s else s ++ [d]) (seen.map .text) =
        (union seen l).map .text := by
    intro l
    induction l with
    | nil => exact fun _ => rfl
    | cons s l ih =>
      intro seen
      have hany : (seen.map Document.text).any (Document.alike (.text s)) = decide (s ∈ seen) := by
        rw [List.any_map, Bool.eq_iff_iff]
        simp [Document.alike_text]
      rw [List.map_cons, List.foldl_cons, hany]
      by_cases hs : s ∈ seen
      · simpa [hs, union, adjoin] using ih seen
      · simpa [hs, union, adjoin] using ih (seen ++ [s])
  show (if (l.map Document.text).all Document.isKey then _ else _) = _
  rw [if_pos hkeys]
  exact congrArg Except.ok (hfold l [])

/-! ## The check -/

/-- A document of the form that the check of patterns asks for. -/
structure Document.IsPattern (d : Document) : Prop where
  name : ∃ name, d.get "vulnerability" = .ok name
  sources : d.get "sources" = .ok (.list ((d.texts "sources").map .text))
  sanitizers : d.get "sanitizers" = .ok (.list ((d.texts "sanitizers").map .text))
  sinks : d.get "sinks" = .ok (.list ((d.texts "sinks").map .text))
  implicit : ∃ answer, d.get "implicit" = .ok (.text answer)

namespace Check

theorem require_ok {holds : Bool} {message : String} (h : require holds message = .ok ()) : holds = true := by
  unfold require at h
  split at h
  · assumption
  · cases h

theorem get_of_requireTexts {d : Document} {key : String} (h : requireTexts d key = .ok ()) :
    d.get key = .ok (.list ((d.texts key).map .text)) := by
  obtain ⟨v, hv, h⟩ := bind_ok h
  obtain ⟨_, hlist, h⟩ := bind_ok h
  obtain ⟨all, hall, h⟩ := bind_ok h
  have hlist := require_ok hlist
  cases v with
  | list items =>
    cases hall
    rw [Document.texts, hv, PatternFile.map_text_names (List.all_eq_true.1 (require_ok h))]
  | _ => cases hlist

theorem form_of_isPattern {d : Document} (h : isPattern d = .ok true) : d.IsPattern := by
  obtain ⟨_, -, h⟩ := bind_ok h
  obtain ⟨name, hname, h⟩ := bind_ok h
  obtain ⟨_, -, h⟩ := bind_ok h
  obtain ⟨_, hsources, h⟩ := bind_ok h
  obtain ⟨_, hsanitizers, h⟩ := bind_ok h
  obtain ⟨_, hsinks, h⟩ := bind_ok h
  obtain ⟨answer, hanswer, h⟩ := bind_ok h
  obtain ⟨_, htext, h⟩ := bind_ok h
  refine ⟨⟨name, hname⟩, get_of_requireTexts hsources, get_of_requireTexts hsanitizers, get_of_requireTexts hsinks, ?_⟩
  cases answer with
  | text answer => exact ⟨answer, hanswer⟩
  | _ => cases require_ok htext

end Check

/-! ## Patterns -/

/-- The pattern has the given sources, sinks and sanitizers and no others. -/
structure Pattern.Lists (p : Pattern) (sources sinks sanitizers : List String) : Prop where
  source : ∀ name, p.isSource name = true ↔ name ∈ sources
  sink : ∀ name, p.isSink name = true ↔ name ∈ sinks
  sanitizer : ∀ name, p.isSanitizer name = true ↔ name ∈ sanitizers

theorem Document.IsPattern.entry_plain {d : Document} (h : d.IsPattern) :
    ∃ e, PatternFile.entry .plain d = .ok e ∧
      e.pattern.Lists (d.texts "sources") (d.texts "sinks") (d.texts "sanitizers") := by
  obtain ⟨name, hname⟩ := h.name
  obtain ⟨answer, hanswer⟩ := h.implicit
  refine ⟨{ name, sources := (distinct (d.texts "sources")).map .text,
            sinks := (distinct (d.texts "sinks")).map .text,
            modes := ((distinct (d.texts "sanitizers")).map .text).map (·, .text "show"),
            implicit := answer.toLower = "yes" }, ?_, ?_⟩
  · unfold PatternFile.entry
    rw [hname, h.sources, h.sinks, h.sanitizers, hanswer]
    simp only [PatternFile.set_texts, bind, Except.bind]
    rfl
  · constructor <;> intro name
    · simp [Pattern.isSource, PatternEntry.pattern, PatternFile.names_map_text, mem_distinct]
    · simp [Pattern.isSink, PatternEntry.pattern, PatternFile.names_map_text, mem_distinct]
    · rw [Pattern.isSanitizer, PatternEntry.sanitizers_pattern, PatternEntry.sanitizers, List.map_map]
      show decide (name ∈ PatternFile.names (List.map id _)) = true ↔ _
      simp [PatternFile.names_map_text, mem_distinct]

/-! ## Texts as pairs -/

/-- The first letter of a text. -/
def initial (s : String) : String := String.ofList (s.toList.take 1)

theorem length_initial (s : String) : (initial s).length ≤ 1 := by
  rw [initial, String.length_ofList, List.length_take]
  omega

namespace PatternFile

/-- One more pair of a list of sanitizers. -/
def addMode (table : List (Document × Document)) (pair : Document) : Except Fault (List (Document × Document)) := do
  let k ← pair.item 0
  let v ← pair.item 1
  if k.isKey then return put k v table else throw .wrongKind

theorem modes_list (items : List Document) : modes (.list items) = items.foldlM addMode [] := rfl

theorem keys_put (k : String) (v : Document) : ∀ {table : List (Document × Document)} {keys : List String},
    table.map (·.1) = keys.map .text → (put (.text k) v table).map (·.1) = (adjoin keys k).map .text
  | [], keys, h => by
    obtain rfl : keys = [] := by simpa using h
    rfl
  | (k', v') :: table, keys, h => by
    cases keys with
    | nil => cases h
    | cons key keys =>
      rw [List.map_cons, List.map_cons, List.cons.injEq] at h
      obtain ⟨rfl, h⟩ := h
      have ih := keys_put k v h
      rw [put, Document.alike_text]
      unfold adjoin at ih ⊢
      by_cases hk : key = k
      · simp [hk, h]
      · have hk' : ¬ k = key := fun h => hk h.symm
        by_cases hmem : k ∈ keys <;> simp [hk, hk', hmem, ih]

theorem addMode_of_letters {s : String} (table : List (Document × Document)) : addMode table (.text s) = (do
    let k ← (s.toList[0]?).elim (.error .pastEnd) fun c => .ok (Document.ofChar c)
    let v ← (s.toList[1]?).elim (.error .pastEnd) fun c => .ok (Document.ofChar c)
    if k.isKey then return put k v table else throw .wrongKind) := rfl

/-- A text of two letters or more is read as the pair of its first two. -/
theorem addMode_text {s : String} (h : 2 ≤ s.length) (table : List (Document × Document)) :
    ∃ mode, addMode table (.text s) = .ok (put (.text (initial s)) mode table) := by
  rw [← String.length_toList] at h
  rw [addMode_of_letters, initial]
  generalize s.toList = letters at h ⊢
  rcases letters with _ | ⟨a, _ | ⟨b, rest⟩⟩
  · simp at h
  · simp at h
  · have ha : a.toString = String.ofList [a] := by simp
    rw [List.take_one, List.head?_cons, Option.toList_some, ← ha]
    exact ⟨Document.ofChar b, rfl⟩

theorem addMode_short {s : String} (h : ¬ 2 ≤ s.length) (table : List (Document × Document)) :
    addMode table (.text s) = .error .pastEnd := by
  rw [← String.length_toList] at h
  rw [addMode_of_letters]
  generalize s.toList = letters at h ⊢
  rcases letters with _ | ⟨a, _ | ⟨b, rest⟩⟩
  · rfl
  · rfl
  · simp at h

/-- Texts of two letters or more are read as sanitizers with one letter each. -/
theorem foldlM_addMode_ok : ∀ {l : List String} {table : List (Document × Document)} {keys : List String},
    table.map (·.1) = keys.map .text → (∀ s ∈ l, 2 ≤ s.length) →
      ∃ table', (l.map Document.text).foldlM addMode table = .ok table' ∧
        table'.map (·.1) = (union keys (l.map initial)).map .text
  | [], table, _, hkeys, _ => ⟨table, rfl, hkeys⟩
  | s :: l, table, keys, hkeys, hl => by
    rw [List.forall_mem_cons] at hl
    obtain ⟨mode, hadd⟩ := addMode_text hl.1 table
    obtain ⟨table', hrest, hkeys'⟩ := foldlM_addMode_ok (keys_put (initial s) mode hkeys) hl.2
    refine ⟨table', ?_, hkeys'⟩
    rw [List.map_cons, List.foldlM_cons, hadd]
    exact hrest

theorem foldlM_addMode_short : ∀ {l : List String} (table : List (Document × Document)),
    ¬ (∀ s ∈ l, 2 ≤ s.length) → (l.map Document.text).foldlM addMode table = .error .pastEnd
  | [], _, h => absurd (List.forall_mem_nil _) h
  | s :: l, table, h => by
    rw [List.map_cons, List.foldlM_cons]
    by_cases hs : 2 ≤ s.length
    · obtain ⟨mode, hadd⟩ := addMode_text hs table
      rw [hadd]
      exact foldlM_addMode_short _ fun hl => h (List.forall_mem_cons.2 ⟨hs, hl⟩)
    · rw [addMode_short hs]
      rfl

end PatternFile

theorem Document.IsPattern.entry_scoped {d : Document} (h : d.IsPattern) :
    ∃ build : List (Document × Document) → PatternEntry,
      PatternFile.entry .scoped d = (PatternFile.modes (.list ((d.texts "sanitizers").map .text))).map build ∧
      ∀ table keys, table.map (·.1) = keys.map Document.text →
        (build table).pattern.Lists (d.texts "sources") (d.texts "sinks") keys := by
  obtain ⟨name, hname⟩ := h.name
  obtain ⟨answer, hanswer⟩ := h.implicit
  refine ⟨fun modes => { name, sources := (distinct (d.texts "sources")).map .text,
                         sinks := (distinct (d.texts "sinks")).map .text, modes,
                         listing := .list ((d.texts "sanitizers").map .text),
                         implicit := answer.toLower = "yes" }, ?_, fun table keys hkeys => ?_⟩
  · unfold PatternFile.entry
    rw [hname, h.sources, h.sinks, h.sanitizers, hanswer]
    simp only [PatternFile.set_texts, bind, Except.bind]
    cases PatternFile.modes (.list ((d.texts "sanitizers").map .text)) <;> rfl
  · constructor <;> intro name
    · simp [Pattern.isSource, PatternEntry.pattern, PatternFile.names_map_text, mem_distinct]
    · simp [Pattern.isSink, PatternEntry.pattern, PatternFile.names_map_text, mem_distinct]
    · rw [Pattern.isSanitizer, PatternEntry.sanitizers_pattern, PatternEntry.sanitizers, hkeys]
      simp [PatternFile.names_map_text]

/-- A pattern whose sanitizers have two letters or more is read with their first letters as sanitizers. -/
theorem Document.IsPattern.entry_scoped_ok {d : Document} (h : d.IsPattern)
    (hlong : ∀ s ∈ d.texts "sanitizers", 2 ≤ s.length) :
    ∃ e, PatternFile.entry .scoped d = .ok e ∧
      e.pattern.Lists (d.texts "sources") (d.texts "sinks") ((d.texts "sanitizers").map initial) := by
  obtain ⟨build, hentry, hlists⟩ := h.entry_scoped
  have hstart : ([] : List (Document × Document)).map (·.1) = ([] : List String).map Document.text := rfl
  obtain ⟨table, hmodes, hkeys⟩ := PatternFile.foldlM_addMode_ok hstart hlong
  refine ⟨build table, by rw [hentry, PatternFile.modes_list, hmodes]; rfl, ?_⟩
  have hlists := hlists table _ hkeys
  exact ⟨hlists.source, hlists.sink, fun name => (hlists.sanitizer name).trans mem_distinct⟩

/-- With a shorter text among the sanitizers it cannot be read. -/
theorem Document.IsPattern.entry_scoped_short {d : Document} (h : d.IsPattern)
    (hshort : ¬ ∀ s ∈ d.texts "sanitizers", 2 ≤ s.length) : PatternFile.entry .scoped d = .error .pastEnd := by
  obtain ⟨build, hentry, -⟩ := h.entry_scoped
  rw [hentry, PatternFile.modes_list, PatternFile.foldlM_addMode_short [] hshort]
  rfl

theorem Document.IsPattern.entry_scoped_listed_iff {d : Document} (h : d.IsPattern) :
    (∃ e, PatternFile.entry .scoped d = .ok e ∧
      e.pattern.Lists (d.texts "sources") (d.texts "sinks") (d.texts "sanitizers")) ↔ d.texts "sanitizers" = [] := by
  constructor
  · rintro ⟨e, he, hlisted⟩
    by_cases hlong : ∀ s ∈ d.texts "sanitizers", 2 ≤ s.length
    · obtain ⟨e', he', hinitials⟩ := h.entry_scoped_ok hlong
      cases he.symm.trans he'
      rw [List.eq_nil_iff_forall_not_mem]
      intro s hs
      -- a listed sanitizer would be the first letter of a text, and is too long for that
      have hs' := (hinitials.sanitizer s).1 ((hlisted.sanitizer s).2 hs)
      obtain ⟨t, -, rfl⟩ := List.mem_map.1 hs'
      have := hlong _ hs
      have := length_initial t
      omega
    · cases he.symm.trans (h.entry_scoped_short hlong)
  · intro hnone
    obtain ⟨e, he, hlists⟩ := h.entry_scoped_ok (by rw [hnone]; exact List.forall_mem_nil _)
    refine ⟨e, he, ?_⟩
    rw [hnone] at hlists ⊢
    exact hlists

/-! ## Pattern files -/

theorem forall₂_of_mapM_ok {α β : Type} {f : α → Except Fault β} : ∀ {l : List α} {m : List β},
    l.mapM f = .ok m → List.Forall₂ (fun a b => f a = .ok b) l m
  | [], _, h => by
    cases h
    exact .nil
  | a :: l, m, h => by
    rw [List.mapM_cons] at h
    obtain ⟨b, hb, h⟩ := bind_ok h
    obtain ⟨rest, hrest, h⟩ := bind_ok h
    cases h
    exact .cons hb (forall₂_of_mapM_ok hrest)

theorem mapM_error {α β : Type} {f : α → Except Fault β} {fault : Fault} : ∀ {l : List α},
    (∀ a ∈ l, (∃ b, f a = .ok b) ∨ f a = .error fault) → (∃ a ∈ l, f a = .error fault) → l.mapM f = .error fault
  | [], _, ⟨_, ha, _⟩ => by cases ha
  | a :: l, hl, hfails => by
    rw [List.forall_mem_cons] at hl
    rw [List.mapM_cons]
    rcases hl.1 with ⟨b, hb⟩ | ha
    · have hrest : ∃ a ∈ l, f a = .error fault := by
        obtain ⟨a', ha', hfault⟩ := hfails
        rcases List.mem_cons.1 ha' with rfl | ha'
        · cases hb.symm.trans hfault
        · exact ⟨a', ha', hfault⟩
      rw [hb, mapM_error hl.2 hrest]
      rfl
    · rw [ha]
      rfl

namespace PatternFile

variable {edition : Edition} {file : List Document}

theorem patterns_list (edition : Edition) (file : List Document) :
    patterns edition (.list file) = (file.mapM (entry edition)).map (·.map PatternEntry.pattern) := by
  show (do return (← file.mapM (entry edition)).map PatternEntry.pattern) = _
  cases file.mapM (entry edition) <;> rfl

/-- A file is read entry by entry. -/
theorem exists_patterns_iff {Q : Document → Pattern → Prop} :
    (∃ ps, patterns edition (.list file) = .ok ps ∧ List.Forall₂ Q file ps) ↔
      ∀ d ∈ file, ∃ e, entry edition d = .ok e ∧ Q d e.pattern := by
  rw [patterns_list]
  constructor
  · rintro ⟨ps, hps, hQ⟩
    cases hes : file.mapM (entry edition) with
    | error fault =>
      rw [hes] at hps
      cases hps
    | ok es =>
      rw [hes] at hps
      cases hps
      have hboth := List.Forall₂.mp (fun _ _ he hQ => And.intro he hQ) (forall₂_of_mapM_ok hes)
        (List.forall₂_map_right_iff.1 hQ)
      intro d hd
      obtain ⟨e, -, he⟩ := forall₂_mem_right (List.Forall₂.flip hboth) d hd
      exact ⟨e, he⟩
  · intro hentries
    choose! entryOf hentry using hentries
    refine ⟨(file.map entryOf).map (·.pattern), ?_, ?_⟩
    · rw [mapM_ok fun d hd => (hentry d hd).1]
      rfl
    · rw [List.map_map, List.forall₂_map_right_iff, List.forall₂_same]
      exact fun d hd => (hentry d hd).2

/-- In the plain edition patterns that pass the check are read as they are listed. -/
theorem patterns_listed (h : ∀ d ∈ file, Check.isPattern d = .ok true) :
    ∃ ps, patterns .plain (.list file) = .ok ps ∧
      List.Forall₂ (fun d p => Pattern.Lists p (d.texts "sources") (d.texts "sinks") (d.texts "sanitizers")) file ps :=
  exists_patterns_iff.2 fun d hd => (Check.form_of_isPattern (h d hd)).entry_plain

theorem patterns_ok (h : ∀ d ∈ file, Check.isPattern d = .ok true) : ∃ ps, patterns .plain (.list file) = .ok ps := by
  obtain ⟨ps, hps, -⟩ := patterns_listed h
  exact ⟨ps, hps⟩

end PatternFile

/-- Patterns that pass the check can be read in the scoped edition exactly if no sanitizer has fewer than two letters.
Sources and sinks are then those that are listed, but the sanitizers are the first letters of the listed ones. So the
patterns are read as they are listed exactly if none of them lists a sanitizer. -/
theorem checked_patterns_read_as_listed_iff {file : List Document} (h : ∀ d ∈ file, Check.isPattern d = .ok true) :
    ((∀ d ∈ file, ∀ s ∈ d.texts "sanitizers", 2 ≤ s.length) →
      ∃ patterns, PatternFile.patterns .scoped (.list file) = .ok patterns ∧
        List.Forall₂ (fun d p => Pattern.Lists p (d.texts "sources") (d.texts "sinks")
          ((d.texts "sanitizers").map initial)) file patterns) ∧
    (¬ (∀ d ∈ file, ∀ s ∈ d.texts "sanitizers", 2 ≤ s.length) →
      PatternFile.patterns .scoped (.list file) = .error .pastEnd) ∧
    ((∃ patterns, PatternFile.patterns .scoped (.list file) = .ok patterns ∧
      List.Forall₂ (fun d p => Pattern.Lists p (d.texts "sources") (d.texts "sinks") (d.texts "sanitizers"))
        file patterns) ↔
      ∀ d ∈ file, d.texts "sanitizers" = []) := by
  have hform : ∀ d ∈ file, d.IsPattern := fun d hd => Check.form_of_isPattern (h d hd)
  refine ⟨fun hlong => ?_, fun hshort => ?_, ?_⟩
  · exact PatternFile.exists_patterns_iff.2 fun d hd => (hform d hd).entry_scoped_ok (hlong d hd)
  · have hcases : ∀ d ∈ file, (∃ e, PatternFile.entry .scoped d = .ok e) ∨
        PatternFile.entry .scoped d = .error .pastEnd := by
      intro d hd
      by_cases hlong : ∀ s ∈ d.texts "sanitizers", 2 ≤ s.length
      · obtain ⟨e, he, -⟩ := (hform d hd).entry_scoped_ok hlong
        exact .inl ⟨e, he⟩
      · exact .inr ((hform d hd).entry_scoped_short hlong)
    have hsome : ∃ d ∈ file, PatternFile.entry .scoped d = .error .pastEnd := by
      by_contra hnone
      refine hshort fun d hd => ?_
      by_contra hlong
      exact hnone ⟨d, hd, (hform d hd).entry_scoped_short hlong⟩
    rw [PatternFile.patterns_list, mapM_error hcases hsome]
    rfl
  · rw [PatternFile.exists_patterns_iff]
    exact forall₂_congr fun d hd => (hform d hd).entry_scoped_listed_iff

/-- Of two patterns with the sanitizers `esc`, `end` and none, the first is read with the sanitizer `e`. -/
theorem checked_patterns_with_sanitizers_read_otherwise :
    let texts : List String → Document := fun names => .list (names.map .text)
    let pattern : List String → Document := fun sanitizers => .record [("vulnerability", .text "A"),
      ("sources", texts ["get", "x"]), ("sanitizers", texts sanitizers), ("sinks", texts ["sink"]),
      ("implicit", .text "no")]
    let file : List Document := [pattern ["esc", "end"], pattern []]
    (∀ d ∈ file, Check.isPattern d = .ok true) ∧
      (∃ p q, PatternFile.patterns .scoped (.list file) = .ok [p, q] ∧
        p.Lists ["get", "x"] ["sink"] ["e", "e"] ∧ q.Lists ["get", "x"] ["sink"] []) ∧
      ¬ ∃ patterns, PatternFile.patterns .scoped (.list file) = .ok patterns ∧
        List.Forall₂ (fun d p => Pattern.Lists p (d.texts "sources") (d.texts "sinks") (d.texts "sanitizers"))
          file patterns := by
  intro texts pattern file
  have hfile : ∀ d ∈ file, Check.isPattern d = .ok true := by
    simp only [file, List.forall_mem_cons]
    exact ⟨rfl, rfl, List.forall_mem_nil _⟩
  obtain ⟨hread, -, hlisted⟩ := checked_patterns_read_as_listed_iff hfile
  refine ⟨hfile, ?_, fun hall => ?_⟩
  · obtain ⟨patterns, hpatterns, hall⟩ := hread (by decide)
    obtain ⟨p, rest, hp, hrest, rfl⟩ := List.forall₂_cons_left_iff.1 hall
    obtain ⟨q, none, hq, hnone, rfl⟩ := List.forall₂_cons_left_iff.1 hrest
    obtain rfl := List.forall₂_nil_left_iff.1 hnone
    exact ⟨p, q, hpatterns, hp, hq⟩
  · have hnone := hlisted.1 hall (pattern ["esc", "end"]) (List.mem_cons_self ..)
    cases hnone

/-- The check accepts the sanitizer `esc`, and it is read as `e`. It accepts `e` too, and that cannot be read. -/
theorem checked_sanitizer_read_as_letter :
    let texts : List String → Document := fun names => .list (names.map .text)
    let pattern : String → Document := fun sanitizer => .record [("vulnerability", .text "A"),
      ("sources", texts ["get"]), ("sanitizers", texts [sanitizer]), ("sinks", texts ["sink"]),
      ("implicit", .text "no")]
    Check.isPattern (pattern "esc") = .ok true ∧
      (∃ p, PatternFile.patterns .scoped (.list [pattern "esc"]) = .ok [p] ∧
        p.isSanitizer "esc" = false ∧ p.isSanitizer "e" = true) ∧
      Check.isPattern (pattern "e") = .ok true ∧
      PatternFile.patterns .scoped (.list [pattern "e"]) = .error .pastEnd := by
  intro texts pattern
  exact ⟨rfl, ⟨_, rfl, by decide, by decide⟩, rfl, rfl⟩

end TaintFlow
