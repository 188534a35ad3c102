import Mathlib.Data.Multiset.MapFold
import TaintFlow.Check.Compare
import TaintFlow.Proofs.Loading

/-
Comparing entries of reports. On documents that pass the check no comparison faults, and each of them tells whether two
documents have the same view: of a name with its place, the name and the line; of a flow, its tag and the multiset of
the places it has passed; of an entry, its name without the number, its source, its sink and the multiset of its flows.
What is left out of a comparison is left out of the view. So every comparison is an equivalence, and pairing off two
lists in the order in which they stand is as good as any other order.
-/
namespace TaintFlow.Check

open Document

/-! ## Comparisons that tell a view -/

variable {κ : Type} {D : Document → Prop} {view : Document → κ} {same : Document → Document → Except Fault Bool}

/-- On documents that satisfy `D` the comparison does not fault, and it tells whether their views are equal. -/
def Tells (D : Document → Prop) (view : Document → κ) (same : Document → Document → Except Fault Bool) : Prop :=
  ∀ a b, D a → D b → ∃ v, same a b = .ok v ∧ (v = true ↔ view a = view b)

theorem Tells.same_iff (h : Tells D view same) {a b : Document} (ha : D a) (hb : D b) :
    same a b = .ok true ↔ view a = view b := by
  obtain ⟨v, hv, hiff⟩ := h a b ha hb
  rw [hv, ← hiff, Except.ok.injEq]

theorem Tells.same_of_ne (h : Tells D view same) {a b : Document} (ha : D a) (hb : D b) (hne : view a ≠ view b) :
    same a b = .ok false := by
  obtain ⟨v, hv, hiff⟩ := h a b ha hb
  rw [hv, Bool.eq_false_iff.2 fun hv => hne (hiff.1 hv)]

/-- Taking out finds the first item with the same view, if there is one. -/
theorem Tells.takeOut (h : Tells D view same) {x : Document} (hx : D x) : ∀ {ys : List Document}, (∀ y ∈ ys, D y) →
    (takeOut (same x) ys = .ok none ∧ ∀ y ∈ ys, view x ≠ view y) ∨
      ∃ before y after, ys = before ++ y :: after ∧ view x = view y ∧
        takeOut (same x) ys = .ok (some (before ++ after))
  | [], _ => .inl ⟨rfl, List.forall_mem_nil _⟩
  | y :: ys, hys => by
    rw [List.forall_mem_cons] at hys
    rw [Check.takeOut]
    by_cases hxy : view x = view y
    · rw [(h.same_iff hx hys.1).2 hxy]
      exact .inr ⟨[], y, ys, rfl, hxy, rfl⟩
    · rw [h.same_of_ne hx hys.1 hxy]
      rcases h.takeOut hx hys.2 with ⟨hnone, hne⟩ | ⟨before, z, after, rfl, hxz, hsome⟩
      · rw [hnone]
        exact .inl ⟨rfl, List.forall_mem_cons.2 ⟨hxy, hne⟩⟩
      · rw [hsome]
        exact .inr ⟨y :: before, z, after, rfl, hxz, rfl⟩

/-- Pairing off tells whether two lists have the same views, in some order. -/
theorem Tells.pairOff (h : Tells D view same) : ∀ {xs ys : List Document}, (∀ x ∈ xs, D x) → (∀ y ∈ ys, D y) →
    ∃ v, pairOff same false false xs ys = .ok v ∧ (v = true ↔ (xs.map view).Perm (ys.map view))
  | [], [], _, _ => ⟨true, rfl, by simp⟩
  | [], y :: ys, _, _ => ⟨false, rfl, by simp⟩
  | x :: xs, ys, hxs, hys => by
    rw [List.forall_mem_cons] at hxs
    rw [Check.pairOff]
    rcases h.takeOut hxs.1 hys with ⟨hnone, hne⟩ | ⟨before, y, after, rfl, hxy, hsome⟩
    · rw [hnone]
      refine ⟨false, rfl, ?_⟩
      simp only [Bool.false_eq_true, false_iff]
      intro hperm
      have hmem : view x ∈ ys.map view := hperm.subset (by simp)
      obtain ⟨y, hy, hyx⟩ := List.mem_map.1 hmem
      exact hne y hy hyx.symm
    · rw [hsome]
      have hmiddle : (before ++ y :: after).Perm (y :: (before ++ after)) := List.perm_middle
      have hrest : ∀ z ∈ before ++ after, D z := fun z hz => hys z (hmiddle.symm.subset (List.mem_cons_of_mem _ hz))
      obtain ⟨v, hv, hiff⟩ := h.pairOff hxs.2 hrest
      refine ⟨v, hv, hiff.trans ?_⟩
      rw [(hmiddle.map view).congr_right, List.map_cons, List.map_cons, hxy, List.perm_cons]

/-- The views of the items of a list, in any order. -/
def viewItems (view : Document → κ) : Document → Multiset κ
  | .list items => (items.map view : List κ)
  | _ => 0

/-- A list of documents that satisfy `D`. -/
def ListOf (D : Document → Prop) (d : Document) : Prop := ∃ items, d = .list items ∧ ∀ x ∈ items, D x

theorem samePairs_list (same : Document → Document → Except Fault Bool) (xs ys : List Document) :
    samePairs same (.list xs) (.list ys) = pairOff same false false xs ys := by
  rcases xs with _ | ⟨x, xs⟩
  · rcases ys with _ | ⟨y, ys⟩ <;> rfl
  · rcases ys with _ | ⟨y, ys⟩ <;> rfl

theorem Tells.samePairs (h : Tells D view same) : Tells (ListOf D) (viewItems view) (samePairs same) := by
  rintro _ _ ⟨xs, rfl, hxs⟩ ⟨ys, rfl, hys⟩
  rw [samePairs_list]
  obtain ⟨v, hv, hiff⟩ := h.pairOff hxs hys
  exact ⟨v, hv, hiff.trans Multiset.coe_eq_coe.symm⟩

/-! ## Names with their places -/

/-- The value of an integer. -/
def integer : Document → Int
  | .int i => i
  | .bool b => if b then 1 else 0
  | _ => 0

theorem alike_integer {a b : Document} (ha : isInteger a = true) (hb : isInteger b = true) :
    alike a b = true ↔ integer a = integer b := by
  cases a <;> cases ha <;> cases b <;> cases hb <;> rw [alike] <;> simp [scalarAlike, number?, integer]

theorem alike_list (as bs : List Document) : alike (.list as) (.list bs) = itemsAlike as bs := by
  rw [alike]

theorem itemsAlike_iff : ∀ {as bs : List Document},
    itemsAlike as bs = true ↔ List.Forall₂ (fun a b => alike a b = true) as bs
  | [], [] => by simp [itemsAlike]
  | [], b :: bs => by simp [itemsAlike]
  | a :: as, [] => by simp [itemsAlike]
  | a :: as, b :: bs => by rw [itemsAlike, Bool.and_eq_true, List.forall₂_cons, itemsAlike_iff]

variable {edition : Edition} (t : Tolerance)

/-- What is compared of a name with its place. -/
def Tolerance.place : Document → String × Option Int
  | .list (.text name :: line :: _) => (name, if t.lines then none else some (integer line))
  | _ => ("", none)

/-- A name with its place is a text, an integer and, in the scoped edition, maybe one more. -/
theorem isInstruction_cases {d : Document} (h : isInstruction edition d = true) :
    ∃ name line rest, d = .list (.text name :: line :: rest) ∧ isInteger line = true ∧
      (∀ x ∈ rest, isInteger x = true) ∧ (edition = .plain → rest = []) := by
  have htext : ∀ {x : Document}, isText x = true → ∃ name, x = .text name := by
    intro x hx
    cases x with
    | text name => exact ⟨name, rfl⟩
    | _ => cases hx
  unfold isInstruction at h
  split at h
  · rw [Bool.and_eq_true] at h
    obtain ⟨name, rfl⟩ := htext h.1
    exact ⟨name, _, [], rfl, h.2, List.forall_mem_nil _, fun _ => rfl⟩
  · simp only [Bool.and_eq_true, decide_eq_true_eq] at h
    obtain ⟨⟨⟨rfl, hname⟩, hline⟩, hcolumn⟩ := h
    obtain ⟨name, rfl⟩ := htext hname
    exact ⟨name, _, _, rfl, hline, List.forall_mem_singleton.2 hcolumn, fun h => by cases h⟩
  · cases h

theorem tells_sameInstruction :
    Tells (isInstruction edition · = true) t.place (sameInstruction edition t) := by
  intro a b ha hb
  obtain ⟨name, line, rest, rfl, hline, -, hrest⟩ := isInstruction_cases ha
  obtain ⟨name', line', rest', rfl, hline', -, hrest'⟩ := isInstruction_cases hb
  unfold sameInstruction
  by_cases hl : t.lines = true
  · rw [if_pos hl]
    refine ⟨_, rfl, ?_⟩
    simp [alike_text, Tolerance.place, hl]
  · rw [if_neg hl]
    have hplace : t.place (.list (.text name :: line :: rest)) = t.place (.list (.text name' :: line' :: rest')) ↔
        name = name' ∧ integer line = integer line' := by
      simp [Tolerance.place, hl]
    rw [hplace]
    cases edition
    · obtain rfl := hrest rfl
      obtain rfl := hrest' rfl
      refine ⟨_, rfl, ?_⟩
      rw [alike_list, itemsAlike_iff]
      simp [alike_text, alike_integer hline hline']
    · show ∃ v, (if alike (.text name) (.text name') then Except.ok (alike line line') else .ok false) = .ok v ∧ _
      rw [alike_text]
      by_cases hname : name = name'
      · refine ⟨alike line line', by simp [hname], ?_⟩
        simp [hname, alike_integer hline hline']
      · exact ⟨false, by simp [hname], by simp [hname]⟩

/-! ## Flows -/

theorem listOf_of_isSanitizers {d : Document} (h : isSanitizers edition d = true) :
    ListOf (isInstruction edition · = true) d := by
  cases d with
  | list items => exact ⟨items, rfl, List.all_eq_true.1 h⟩
  | _ => cases h

theorem tells_sameSanitizers : Tells (isSanitizers edition · = true)
    (fun d => if t.sanitizers then 0 else viewItems t.place d) (sameSanitizers edition t) := by
  intro a b ha hb
  unfold sameSanitizers
  by_cases hs : t.sanitizers = true
  · exact ⟨true, if_pos hs, by simp [hs]⟩
  · simp only [hs, Bool.false_eq_true, if_false]
    exact (tells_sameInstruction t).samePairs a b (listOf_of_isSanitizers ha) (listOf_of_isSanitizers hb)

/-- What is compared of a flow. -/
def Tolerance.flow : Document → String × Multiset (String × Option Int)
  | .list [.text tag, sanitizers] =>
    (if t.implicit then "" else tag, if t.sanitizers then 0 else viewItems t.place sanitizers)
  | _ => ("", 0)

theorem isFlow_cases {d : Document} (h : isFlow edition d = true) :
    ∃ tag sanitizers, d = .list [.text tag, sanitizers] ∧ isSanitizers edition sanitizers = true := by
  unfold isFlow at h
  split at h
  · simp only [Bool.and_eq_true, Bool.or_eq_true, decide_eq_true_eq] at h
    obtain ⟨rfl | rfl, hs⟩ := h
    · exact ⟨_, _, rfl, hs⟩
    · exact ⟨_, _, rfl, hs⟩
  · cases h

theorem tells_sameFlow : Tells (isFlow edition · = true) t.flow (sameFlow edition t) := by
  intro a b ha hb
  obtain ⟨tag, sanitizers, rfl, hs⟩ := isFlow_cases ha
  obtain ⟨tag', sanitizers', rfl, hs'⟩ := isFlow_cases hb
  obtain ⟨v, hv, hiff⟩ := tells_sameSanitizers t sanitizers sanitizers' hs hs'
  show ∃ v, (if !t.implicit then
      if !alike (.text tag) (.text tag') then .ok false else sameSanitizers edition t sanitizers sanitizers'
    else sameSanitizers edition t sanitizers sanitizers') = .ok v ∧ _
  rw [hv, alike_text]
  by_cases hi : t.implicit = true
  · refine ⟨v, by simp [hi], hiff.trans ?_⟩
    simp [Tolerance.flow, hi]
  · by_cases htag : tag = tag'
    · refine ⟨v, by simp [htag], hiff.trans ?_⟩
      simp [Tolerance.flow, htag]
    · refine ⟨false, by simp [hi, htag], ?_⟩
      simp [Tolerance.flow, hi, htag]

/-! ## Entries -/

/-- The keys of an entry. -/
def entryKeys : List String := ["vulnerability", "source", "sink", "flows"]

/-- The document is an entry with these parts. -/
structure EntryOf (edition : Edition) (d : Document) (name : String) (source sink : Document)
    (flows : List Document) : Prop where
  keys : ∃ fields, d = .record fields ∧ (fields.map (·.1)).Perm entryKeys
  get_name : d.get "vulnerability" = .ok (.text name)
  get_source : d.get "source" = .ok source
  get_sink : d.get "sink" = .ok sink
  get_flows : d.get "flows" = .ok (.list flows)
  source : isInstruction edition source = true
  sink : isInstruction edition sink = true
  flows : ∀ f ∈ flows, isFlow edition f = true

theorem of_hasKeys {keys : List String} {fields : List (String × Document)}
    (h : hasKeys (.list (keys.map .text)) (.record fields) = .ok true) :
    keys.length = (fields.map (·.1)).length ∧ keys ⊆ fields.map (·.1) := by
  change (if (keys.map Document.text).length ≠ (fields.map (·.1)).length then Except.ok false
    else if !(keys.map Document.text).all isKey then .error Fault.wrongKind
    else .ok ((keys.map Document.text).all (fun k => (fields.map (·.1)).any fun f => alike k (.text f)) &&
      (fields.map (·.1)).all fun f => (keys.map Document.text).any (alike (.text f)))) = .ok true at h
  split at h
  · cases h
  · rename_i hlength
    split at h
    · cases h
    · rw [Except.ok.injEq, Bool.and_eq_true] at h
      refine ⟨by simpa using hlength, fun k hk => ?_⟩
      have hk := List.all_eq_true.1 h.1 (.text k) (List.mem_map_of_mem hk)
      simpa [alike_text] using hk

theorem keys_of_requireKeys {what : String} {keys : List String} {d : Document} (hkeys : keys.Nodup)
    (h : requireKeys what keys d = .ok ()) : ∃ fields, d = .record fields ∧ (fields.map (·.1)).Perm keys := by
  obtain ⟨ok, hok, h⟩ := bind_ok h
  obtain ⟨found, hfound, h⟩ := bind_ok h
  obtain rfl := require_ok h
  cases d with
  | record fields =>
    obtain ⟨hlength, hmem⟩ := of_hasKeys hok
    exact ⟨fields, rfl, ((hkeys.subperm hmem).perm_of_length_le hlength.ge).symm⟩
  | _ => cases hfound

theorem isEntry_cases {d : Document} (h : isEntry edition d = .ok true) :
    ∃ name source sink flows, EntryOf edition d name source sink flows := by
  obtain ⟨_, hkeys, h⟩ := bind_ok h
  obtain ⟨name, hname, h⟩ := bind_ok h
  obtain ⟨_, htext, h⟩ := bind_ok h
  obtain ⟨source, hsource, h⟩ := bind_ok h
  obtain ⟨_, hsource', h⟩ := bind_ok h
  obtain ⟨sink, hsink, h⟩ := bind_ok h
  obtain ⟨_, hsink', h⟩ := bind_ok h
  obtain ⟨flows, hflows, h⟩ := bind_ok h
  obtain ⟨_, hlist, h⟩ := bind_ok h
  obtain ⟨ok, hok, h⟩ := bind_ok h
  obtain ⟨_, hall, h⟩ := bind_ok h
  have htext := require_ok htext
  have hlist := require_ok hlist
  cases name with
  | text name =>
    cases flows with
    | list flows =>
      cases hok
      obtain ⟨-, hall⟩ := Bool.and_eq_true_iff.1 (require_ok hall)
      exact ⟨name, source, sink, flows, keys_of_requireKeys (by decide) hkeys, hname, hsource, hsink, hflows,
        require_ok hsource', require_ok hsink', List.all_eq_true.1 hall⟩
    | _ => cases hlist
  | _ => cases htext

/-- What is compared of an entry. -/
structure View where
  name : String
  source : String × Option Int
  sink : String × Option Int
  flows : Multiset (String × Multiset (String × Option Int))

/-- What is compared of a name: what stands before its number. -/
def viewName : Document → String
  | .text s => baseName s
  | _ => ""

def Tolerance.entry (d : Document) : View :=
  let part (key : String) : Document := (d.get key).toOption.getD .null
  { name := viewName (part "vulnerability")
    source := t.place (part "source")
    sink := t.place (part "sink")
    flows := viewItems t.flow (part "flows") }

theorem EntryOf.entry_eq {d : Document} {name : String} {source sink : Document} {flows : List Document}
    (h : EntryOf edition d name source sink flows) :
    t.entry d = ⟨baseName name, t.place source, t.place sink, viewItems t.flow (.list flows)⟩ := by
  simp only [Tolerance.entry, h.get_name, h.get_source, h.get_sink, h.get_flows]
  rfl

theorem tells_sameEntry : Tells (isEntry edition · = .ok true) t.entry (sameEntry edition t) := by
  intro a b ha hb
  obtain ⟨name, source, sink, flows, ha⟩ := isEntry_cases ha
  obtain ⟨name', source', sink', flows', hb⟩ := isEntry_cases hb
  obtain ⟨v, hv, hsource⟩ := tells_sameInstruction t source source' ha.source hb.source
  obtain ⟨w, hw, hsink⟩ := tells_sameInstruction t sink sink' ha.sink hb.sink
  obtain ⟨u, hu, hflows⟩ := (tells_sameFlow t).samePairs (.list flows) (.list flows') ⟨flows, rfl, ha.flows⟩
    ⟨flows', rfl, hb.flows⟩
  refine ⟨decide (baseName name = baseName name') && v && w && u, ?_, ?_⟩
  · unfold sameEntry sameFlows
    rw [ha.get_name, ha.get_source, ha.get_sink, ha.get_flows, hb.get_name, hb.get_source, hb.get_sink, hb.get_flows]
    show (if !decide (baseName name = baseName name') then Except.ok false else do
      if !(← sameInstruction edition t source source') then return false
      if !(← sameInstruction edition t sink sink') then return false
      samePairs (sameFlow edition t) (.list flows) (.list flows')) = _
    rw [hv, hw, hu]
    generalize decide (baseName name = baseName name') = n
    cases n <;> cases v <;> cases w <;> rfl
  · rw [ha.entry_eq, hb.entry_eq, View.mk.injEq, ← hsource, ← hsink, ← hflows]
    simp [and_assoc]

/-! ## Entries that are alike -/

/-- Documents that satisfy `D` are alike to themselves, and have the same view as documents that are alike. -/
structure Reflects (D : Document → Prop) (view : Document → κ) : Prop where
  self : ∀ {a}, D a → alike a a = true
  view_eq : ∀ {a b}, D a → D b → alike a b = true → view a = view b

theorem Reflects.items (h : Reflects D view) : Reflects (ListOf D) (viewItems view) where
  self := by
    rintro _ ⟨items, rfl, hitems⟩
    rw [alike_list, itemsAlike_iff, List.forall₂_same]
    exact fun x hx => h.self (hitems x hx)
  view_eq := by
    rintro _ _ ⟨as, rfl, has⟩ ⟨bs, rfl, hbs⟩ hab
    rw [alike_list, itemsAlike_iff] at hab
    have hmap : as.map view = bs.map view := by
      induction hab with
      | nil => rfl
      | cons hab _ ih =>
        rw [List.forall_mem_cons] at has hbs
        rw [List.map_cons, List.map_cons, h.view_eq has.1 hbs.1 hab, ih has.2 hbs.2]
    exact congrArg (fun l : List κ => (l : Multiset κ)) hmap

theorem reflects_place : Reflects (isInstruction edition · = true) t.place where
  self := by
    intro a ha
    obtain ⟨name, line, rest, rfl, hline, hrest, -⟩ := isInstruction_cases ha
    rw [alike_list, itemsAlike_iff, List.forall₂_same, List.forall_mem_cons, List.forall_mem_cons]
    exact ⟨by simp [alike_text], (alike_integer hline hline).2 rfl,
      fun x hx => (alike_integer (hrest x hx) (hrest x hx)).2 rfl⟩
  view_eq := by
    intro a b ha hb hab
    obtain ⟨name, line, rest, rfl, hline, -⟩ := isInstruction_cases ha
    obtain ⟨name', line', rest', rfl, hline', -⟩ := isInstruction_cases hb
    rw [alike_list, itemsAlike_iff, List.forall₂_cons, List.forall₂_cons, alike_text, decide_eq_true_eq,
      alike_integer hline hline'] at hab
    simp [Tolerance.place, hab.1, hab.2.1]

theorem reflects_flow : Reflects (isFlow edition · = true) t.flow where
  self := by
    intro a ha
    obtain ⟨tag, sanitizers, rfl, hs⟩ := isFlow_cases ha
    rw [alike_list, itemsAlike_iff, List.forall₂_same, List.forall_mem_cons, List.forall_mem_singleton]
    exact ⟨by simp [alike_text], (reflects_place t).items.self (listOf_of_isSanitizers hs)⟩
  view_eq := by
    intro a b ha hb hab
    obtain ⟨tag, sanitizers, rfl, hs⟩ := isFlow_cases ha
    obtain ⟨tag', sanitizers', rfl, hs'⟩ := isFlow_cases hb
    rw [alike_list, itemsAlike_iff, List.forall₂_cons, List.forall₂_cons, alike_text, decide_eq_true_eq] at hab
    have hview := (reflects_place t).items.view_eq (listOf_of_isSanitizers hs) (listOf_of_isSanitizers hs') hab.2.1
    simp [Tolerance.flow, hab.1, hview]

theorem fieldsAlike_iff : ∀ {as bs : List (String × Document)},
    fieldsAlike as bs = true ↔ ∀ f ∈ as, ∃ w, lookup f.1 bs = some w ∧ alike f.2 w = true
  | [], bs => by simp [fieldsAlike]
  | (k, v) :: as, bs => by
    rw [fieldsAlike, Bool.and_eq_true, fieldsAlike_iff, List.forall_mem_cons]
    refine and_congr_left fun _ => ?_
    cases lookup k bs <;> simp

theorem mem_of_lookup {k : String} {v : Document} : ∀ {fields : List (String × Document)},
    lookup k fields = some v → (k, v) ∈ fields
  | (k', v') :: fields, h => by
    rw [lookup] at h
    split at h
    · rename_i hk
      cases h
      rw [hk]
      exact List.mem_cons_self ..
    · exact List.mem_cons_of_mem _ (mem_of_lookup h)

theorem lookup_of_mem {k : String} {v : Document} : ∀ {fields : List (String × Document)},
    (fields.map (·.1)).Nodup → (k, v) ∈ fields → lookup k fields = some v
  | (k', v') :: fields, hkeys, h => by
    rw [List.map_cons, List.nodup_cons] at hkeys
    rw [lookup]
    rcases List.mem_cons.1 h with h | h
    · cases h
      exact if_pos rfl
    · have hne : k' ≠ k := by
        rintro rfl
        exact hkeys.1 (List.mem_map.2 ⟨_, h, rfl⟩)
      rw [if_neg hne]
      exact lookup_of_mem hkeys.2 h

theorem get_record {fields : List (String × Document)} {key : String} {v : Document} :
    (Document.record fields).get key = .ok v ↔ lookup key fields = some v := by
  cases h : lookup key fields <;> simp [Document.get, h]

theorem alike_record (as bs : List (String × Document)) :
    alike (.record as) (.record bs) = (decide (as.length = bs.length) && fieldsAlike as bs) := by
  rw [alike]

theorem get_of_alike {a b v : Document} {key : String} (hab : alike a b = true) (hv : a.get key = .ok v) :
    ∃ w, b.get key = .ok w ∧ alike v w = true := by
  cases a with
  | record as =>
    cases b with
    | record bs =>
      rw [alike_record, Bool.and_eq_true, fieldsAlike_iff] at hab
      obtain ⟨w, hw, hvw⟩ := hab.2 (key, v) (mem_of_lookup (get_record.1 hv))
      exact ⟨w, get_record.2 hw, hvw⟩
    | float bits => cases h : fraction bits <;> simp [alike, scalarAlike, number?, h] at hab
    | _ => simp [alike, scalarAlike, number?] at hab
  | _ => cases hv

theorem reflects_entry : Reflects (isEntry edition · = .ok true) t.entry where
  self := by
    intro a ha
    obtain ⟨name, source, sink, flows, ha⟩ := isEntry_cases ha
    obtain ⟨fields, rfl, hkeys⟩ := ha.keys
    have hfields : fieldsAlike fields fields = true := by
      rw [fieldsAlike_iff]
      rintro ⟨key, v⟩ hf
      have hlookup : lookup key fields = some v := lookup_of_mem (hkeys.nodup_iff.2 (by decide)) hf
      refine ⟨v, hlookup, ?_⟩
      have hget := get_record.2 hlookup
      have hkey : key ∈ entryKeys := hkeys.subset (List.mem_map.2 ⟨(key, v), hf, rfl⟩)
      simp only [entryKeys, List.mem_cons, List.not_mem_nil, or_false] at hkey
      rcases hkey with rfl | rfl | rfl | rfl
      · obtain rfl := Except.ok.inj (hget.symm.trans ha.get_name)
        simp [alike_text]
      · obtain rfl := Except.ok.inj (hget.symm.trans ha.get_source)
        exact (reflects_place t).self ha.source
      · obtain rfl := Except.ok.inj (hget.symm.trans ha.get_sink)
        exact (reflects_place t).self ha.sink
      · obtain rfl := Except.ok.inj (hget.symm.trans ha.get_flows)
        exact (reflects_flow t).items.self ⟨flows, rfl, ha.flows⟩
    rw [alike_record, hfields]
    simp
  view_eq := by
    intro a b ha hb hab
    obtain ⟨name, source, sink, flows, ha⟩ := isEntry_cases ha
    obtain ⟨name', source', sink', flows', hb⟩ := isEntry_cases hb
    obtain ⟨_, hname, hn⟩ := get_of_alike hab ha.get_name
    obtain ⟨_, hsource, hso⟩ := get_of_alike hab ha.get_source
    obtain ⟨_, hsink, hsi⟩ := get_of_alike hab ha.get_sink
    obtain ⟨_, hflows, hf⟩ := get_of_alike hab ha.get_flows
    cases hname.symm.trans hb.get_name
    cases hsource.symm.trans hb.get_source
    cases hsink.symm.trans hb.get_sink
    cases hflows.symm.trans hb.get_flows
    rw [alike_text, decide_eq_true_eq] at hn
    rw [ha.entry_eq, hb.entry_eq, hn, (reflects_place t).view_eq ha.source hb.source hso,
      (reflects_place t).view_eq ha.sink hb.sink hsi,
      (reflects_flow t).items.view_eq ⟨flows, rfl, ha.flows⟩ ⟨flows', rfl, hb.flows⟩ hf]

end TaintFlow.Check
