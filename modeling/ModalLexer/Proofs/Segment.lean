import Mathlib.Data.List.Induction
import Mathlib.Data.List.Nodup
import Mathlib.Data.List.Pairwise
import ModalLexer.CharGroup

/-!
# Disjoint segments

A segment map answers from one of its segments only, the last that begins at or
before the code point. If the segments are disjoint there is no other that
could contain it: one that begins earlier ends before this one begins, and one
of those that begin later does not reach back. So the answer is the value of
the segment that contains the code point, in whatever order the segments were
inserted (`SegmentMap.get?_eq_some_iff`), and the group of a character is found
as if all of them had been looked at.
-/

namespace ModalLexer

/-! ## Segments -/

namespace Segment

variable {a b : Segment} {v : Nat}

/-- One of them ends before the other begins. -/
def Disjoint (a b : Segment) : Prop := a.hi < b.lo ∨ b.hi < a.lo

instance (a b : Segment) : Decidable (Disjoint a b) := inferInstanceAs (Decidable (_ ∨ _))

instance (s : Segment) (v : Nat) : Decidable (s.Contains v) :=
  inferInstanceAs (Decidable (_ ∧ _))

theorem Disjoint.not_contains (h : a.Disjoint b) (ha : a.Contains v) : ¬ b.Contains v := by
  unfold Disjoint at h
  unfold Contains at *
  omega

theorem not_before_self (a : Segment) : ¬ a.Before a := by
  unfold Before
  omega

/-- A segment that comes after the one that contains `v` begins behind `v`. -/
theorem Disjoint.lt_lo (h : a.Disjoint b) (hb : b.lo ≤ b.hi) (hbefore : a.Before b)
    (ha : a.Contains v) : v < b.lo := by
  unfold Disjoint at h
  unfold Before at hbefore
  unfold Contains at ha
  omega

/-- Greatest bound that a segment can have. -/
def maxBound : Nat := 0xffffffff

end Segment

/-! ## Values given to segments -/

namespace SegmentMap

variable {α : Type} {m : SegmentMap α} {entries : List (Segment × α)} {k : Segment} {x : α}
  {v : Nat}

/-- The value that a segment was given last, if it was given one. -/
def given? (entries : List (Segment × α)) (k : Segment) : Option α := entries.reverse.lookup k

/-- The segments are well-formed, and two of them are disjoint or the same. -/
structure Apart (entries : List (Segment × α)) : Prop where
  lo_le_hi : ∀ e ∈ entries, e.1.lo ≤ e.1.hi
  disjoint : ∀ e ∈ entries, ∀ f ∈ entries, e.1 ≠ f.1 → e.1.Disjoint f.1

theorem apart_iff : Apart entries ↔ (∀ e ∈ entries, e.1.lo ≤ e.1.hi)
    ∧ ∀ e ∈ entries, ∀ f ∈ entries, e.1 ≠ f.1 → e.1.Disjoint f.1 :=
  ⟨fun h => ⟨h.1, h.2⟩, fun h => ⟨h.1, h.2⟩⟩

instance : Decidable (Apart entries) := decidable_of_iff _ apart_iff.symm

/-- At most one of the segments contains a code point. -/
theorem Apart.eq_of_contains (h : Apart entries) {e f : Segment × α} (he : e ∈ entries)
    (hf : f ∈ entries) (hev : e.1.Contains v) (hfv : f.1.Contains v) : e.1 = f.1 := by
  by_contra hne
  exact (h.disjoint e he f hf hne).not_contains hev hfv

theorem given?_concat (entries : List (Segment × α)) (k k' : Segment) (x : α) :
    given? (entries ++ [(k, x)]) k' = if k' = k then some x else given? entries k' := by
  rw [given?, List.reverse_append, List.reverse_singleton, List.singleton_append, List.lookup_cons]
  by_cases h : k' = k
  · simp [h]
  · rw [if_neg h, beq_eq_false_iff_ne.mpr h]
    rfl

theorem mem_of_given? (h : given? entries k = some x) : (k, x) ∈ entries := by
  obtain ⟨before, after, hsplit, -⟩ := List.lookup_eq_some_iff.mp h
  rw [← List.mem_reverse, hsplit]
  exact List.mem_append_right _ (List.mem_cons_self ..)

theorem exists_given? {e : Segment × α} (h : e ∈ entries) : ∃ x, given? entries e.1 = some x := by
  rw [← Option.isSome_iff_exists, Option.isSome_iff_ne_none]
  intro hnone
  have hne := List.lookup_eq_none_iff.mp hnone e (List.mem_reverse.mpr h)
  simp at hne

/-- If no segment is given two values, each has the one that it was given. -/
theorem given?_eq_some_iff (hnodup : (entries.map (·.1)).Nodup) :
    given? entries k = some x ↔ (k, x) ∈ entries := by
  refine ⟨mem_of_given?, ?_⟩
  intro hmem
  obtain ⟨y, hy⟩ := exists_given? hmem
  have hsame := List.inj_on_of_nodup_map hnodup (mem_of_given? hy) hmem rfl
  exact (Prod.mk.inj hsame).2 ▸ hy

theorem given?_of_perm {others : List (Segment × α)} (hperm : others.Perm entries)
    (hnodup : (entries.map (·.1)).Nodup) (k : Segment) : given? others k = given? entries k := by
  ext x
  rw [given?_eq_some_iff ((hperm.map _).nodup_iff.mpr hnodup), given?_eq_some_iff hnodup,
    hperm.mem_iff]

/-! ## The entries of a map -/

theorem find?_insertEntry (k k' : Segment) (x : α) (entries : List (Segment × α)) :
    ((insertEntry k x entries).find? (·.1 == k')).map (·.2)
      = if k' = k then some x else (entries.find? (·.1 == k')).map (·.2) := by
  have hfirst : ∀ rest : List (Segment × α), (((k, x) :: rest).find? (·.1 == k')).map (·.2)
      = if k' = k then some x else (rest.find? (·.1 == k')).map (·.2) := by
    intro rest
    by_cases h : k' = k
    · simp [h]
    · simp [h, Ne.symm h]
  induction entries with
  | nil => exact hfirst []
  | cons e rest ih =>
      unfold insertEntry
      split
      · rename_i hsame
        rw [hfirst]
        by_cases h : k' = k
        · simp [h]
        · have hne : e.1 ≠ k' := fun heq => h (heq.symm.trans hsame)
          simp [h, hne]
      · rename_i hother
        split
        · exact hfirst _
        · by_cases he : e.1 = k'
          · have hne : k' ≠ k := fun heq => hother (he.trans heq)
            simp [he, hne]
          · simp [he, ih]

theorem find?_insert (m : SegmentMap α) (k k' : Segment) (x : α) :
    (m.insert k x).find? k' = if k' = k then some x else m.find? k' :=
  find?_insertEntry k k' x m.entries

theorem ofList_concat (entries : List (Segment × α)) (k : Segment) (x : α) :
    ofList (entries ++ [(k, x)]) = (ofList entries).insert k x := by
  rw [ofList, List.foldl_append]
  rfl

/-- A map has for each segment the value that it was given last. -/
theorem find?_ofList (entries : List (Segment × α)) (k : Segment) :
    (ofList entries).find? k = given? entries k := by
  induction entries using List.reverseRecOn with
  | nil => rfl
  | append_singleton entries e ih => rw [ofList_concat, find?_insert, given?_concat, ih]

/-- The segments of a map are all different. -/
theorem distinct (m : SegmentMap α) : m.entries.Pairwise fun a b => a.1 ≠ b.1 :=
  m.sorted.imp fun {a b} hbefore (heq : a.1 = b.1) => Segment.not_before_self b.1 (heq ▸ hbefore)

theorem mem_entries_iff : (k, x) ∈ m.entries ↔ m.find? k = some x := by
  unfold find?
  rw [Option.map_eq_some_iff]
  constructor
  · intro hmem
    obtain ⟨e, he⟩ : ∃ e, m.entries.find? (·.1 == k) = some e :=
      Option.isSome_iff_exists.mp (List.find?_isSome.mpr ⟨_, hmem, by simp⟩)
    have hkey : e.1 = k := by simpa using List.find?_some he
    have : Std.Symm fun a b : Segment × α => a.1 ≠ b.1 := ⟨fun _ _ h => h.symm⟩
    have hsame : e = (k, x) := by
      by_contra hne
      exact m.distinct.forall (List.mem_of_find?_eq_some he) hmem hne hkey
    exact ⟨e, he, by rw [hsame]⟩
  · rintro ⟨e, he, rfl⟩
    have hkey : e.1 = k := by simpa using List.find?_some he
    exact hkey ▸ List.mem_of_find?_eq_some he

/-- A map is told by the values of its segments. -/
theorem ext_find? {m m' : SegmentMap α} (h : ∀ k, m.find? k = m'.find? k) : m = m' := by
  have hnodup : ∀ m : SegmentMap α, m.entries.Nodup := fun m =>
    m.distinct.imp fun hne heq => hne (congrArg Prod.fst heq)
  have hperm : m.entries.Perm m'.entries := by
    refine (List.perm_ext_iff_of_nodup (hnodup m) (hnodup m')).mpr ?_
    rintro ⟨k, x⟩
    rw [mem_entries_iff, mem_entries_iff, h]
  have hentries : m.entries = m'.entries := by
    refine hperm.eq_of_pairwise ?_ m.sorted m'.sorted
    intro a b _ _ hab hba
    exact absurd (hab.trans hba) (Segment.not_before_self _)
  obtain ⟨_, _⟩ := m
  obtain ⟨_, _⟩ := m'
  obtain rfl := hentries
  rfl

theorem mem_of_mem_ofList {e : Segment × α} (he : e ∈ (ofList entries).entries) : e ∈ entries := by
  obtain ⟨k, x⟩ := e
  rw [mem_entries_iff, find?_ofList] at he
  exact mem_of_given? he

theorem apart_ofList (h : Apart entries) : Apart (ofList entries).entries where
  lo_le_hi e he := h.lo_le_hi e (mem_of_mem_ofList he)
  disjoint e he f hf := h.disjoint e (mem_of_mem_ofList he) f (mem_of_mem_ofList hf)

/-! ## Lookup -/

/-- The entries from one segment to another, in order. -/
def range (m : SegmentMap α) (first last : Segment) : List (Segment × α) :=
  m.entries.filter fun e => ¬ e.1.Before first ∧ ¬ last.Before e.1

/-- What holds of an element holds of those in front of it, so those of which it
holds come first. -/
theorem takeWhile_eq_filter {P : α → Bool} {l : List α}
    (h : l.Pairwise fun a b => P b = true → P a = true) : l.takeWhile P = l.filter P := by
  induction l with
  | nil => rfl
  | cons a l ih =>
      obtain ⟨hfirst, hrest⟩ := List.pairwise_cons.mp h
      by_cases ha : P a = true
      · rw [List.takeWhile_cons_of_pos ha, List.filter_cons_of_pos ha, ih hrest]
      · rw [List.takeWhile_cons_of_neg ha, List.filter_cons_of_neg ha, eq_comm,
          List.filter_eq_nil_iff]
        intro b hb hPb
        exact ha (hfirst b hb hPb)

theorem floor?_eq (m : SegmentMap α) (v : Nat) :
    m.floor? v = (m.entries.filter fun e => decide (e.1.lo ≤ v)).getLast? := by
  rw [floor?, takeWhile_eq_filter]
  refine m.sorted.imp ?_
  intro a b hbefore hb
  simp only [decide_eq_true_eq] at hb ⊢
  unfold Segment.Before at hbefore
  omega

/-- The entry that is looked at is the last up to the greatest segment that
begins at the code point. -/
theorem floor?_eq_getLast?_range (hbound : ∀ e ∈ m.entries, e.1.hi ≤ Segment.maxBound) (v : Nat) :
    m.floor? v = (m.range ⟨0, 0⟩ ⟨v, Segment.maxBound⟩).getLast? := by
  rw [floor?_eq, range]
  congr 1
  refine List.filter_congr fun e he => decide_eq_decide.mpr ?_
  have hhi := hbound e he
  simp only [Segment.Before]
  omega

theorem getLast?_eq_some_of_pairwise {R : α → α → Prop} {l : List α} (h : l.Pairwise R)
    (hmem : x ∈ l) (hlast : ∀ y ∈ l, ¬ R x y) : l.getLast? = some x := by
  obtain ⟨before, after, rfl⟩ := List.append_of_mem hmem
  have hnil : after = [] := by
    rw [List.eq_nil_iff_forall_not_mem]
    intro y hy
    refine hlast y (List.mem_append_right _ (List.mem_cons_of_mem _ hy)) ?_
    exact (List.pairwise_cons.mp (List.pairwise_append.mp h).2.1).1 y hy
  rw [hnil, List.getLast?_concat]

/-- A segment that contains the code point is the one that is looked at. -/
theorem floor?_of_contains (h : Apart m.entries) (hmem : (k, x) ∈ m.entries)
    (hv : k.Contains v) : m.floor? v = some (k, x) := by
  rw [floor?_eq]
  refine getLast?_eq_some_of_pairwise (m.sorted.filter _) ?_ ?_
  · exact List.mem_filter.mpr ⟨hmem, decide_eq_true hv.1⟩
  · rintro f hf hbefore
    obtain ⟨hf, hle⟩ := List.mem_filter.mp hf
    have hne : k ≠ f.1 := fun heq => Segment.not_before_self _ (heq ▸ hbefore)
    have hlt := (h.disjoint _ hmem f hf hne).lt_lo (h.lo_le_hi f hf) hbefore hv
    exact absurd (of_decide_eq_true hle) (Nat.not_le.mpr hlt)

theorem get?_eq_some_iff (h : Apart m.entries) :
    m.get? v = some x ↔ ∃ k, k.Contains v ∧ m.find? k = some x := by
  constructor
  · intro hget
    unfold get? at hget
    split at hget
    · rename_i k a hfloor
      split at hget
      · rename_i hhi
        obtain rfl := Option.some.inj hget
        rw [floor?_eq] at hfloor
        obtain ⟨hmem, hlo⟩ := List.mem_filter.mp (List.mem_of_getLast? hfloor)
        exact ⟨k, ⟨of_decide_eq_true hlo, hhi⟩, mem_entries_iff.mp hmem⟩
      · cases hget
    · cases hget
  · rintro ⟨k, hv, hfind⟩
    unfold get?
    rw [floor?_of_contains h (mem_entries_iff.mpr hfind) hv]
    exact if_pos hv.2

/-- What a map answers that was given these values: a code point has the value
of the segment that contains it. -/
structure Answers (m : SegmentMap α) (entries : List (Segment × α)) : Prop where
  found : ∀ v x, m.get? v = some x ↔ ∃ k, k.Contains v ∧ given? entries k = some x
  missing : ∀ v, m.get? v = none ↔ ∀ e ∈ entries, ¬ e.1.Contains v
  /-- The one entry that is looked at is the last of a range of segments. -/
  floor : (∀ e ∈ entries, e.1.hi ≤ Segment.maxBound) → ∀ v,
    m.floor? v = (m.range ⟨0, 0⟩ ⟨v, Segment.maxBound⟩).getLast?

theorem Apart.answers (h : Apart entries) : (ofList entries).Answers entries := by
  have hfound : ∀ v x, (SegmentMap.ofList entries).get? v = some x
      ↔ ∃ k, k.Contains v ∧ given? entries k = some x := by
    intro v x
    simp only [get?_eq_some_iff (apart_ofList h), find?_ofList]
  refine ⟨hfound, ?_, ?_⟩
  · intro v
    simp only [Option.eq_none_iff_forall_ne_some, ne_eq, hfound]
    constructor
    · intro hnone e he hv
      obtain ⟨x, hx⟩ := exists_given? he
      exact hnone x ⟨e.1, hv, hx⟩
    · rintro hnone x ⟨k, hv, hx⟩
      exact hnone _ (mem_of_given? hx) hv
  · intro hbound
    exact floor?_eq_getLast?_range fun e he => hbound e (mem_of_mem_ofList he)

theorem ofList_congr {others : List (Segment × α)}
    (h : ∀ k, given? others k = given? entries k) : ofList others = ofList entries :=
  ext_find? fun k => by rw [find?_ofList, find?_ofList, h]

end SegmentMap

/-! ## Groups -/

namespace CharGroups

variable {g : CharGroups} {segments : List (Segment × GroupId)} {c : Char} {group : GroupId}

theorem group?_of_ascii (hc : c.toNat < 128) : g.group? c = g.ascii[c.toNat]? := if_pos hc

/-- Beyond ASCII, the segments are for the characters that have no entry of
their own. -/
theorem group?_eq_some_iff (h : SegmentMap.Apart segments)
    (hsegments : g.segments = .ofList segments) (hc : 128 ≤ c.toNat) :
    g.group? c = some group ↔ g.chars.get? c = some group
      ∨ g.chars.get? c = none ∧ ∃ k : Segment, k.Contains c.toNat
        ∧ SegmentMap.given? segments k = some group := by
  rw [group?, if_neg (Nat.not_lt.mpr hc), Option.or_eq_some_iff, hsegments, h.answers.found]

end CharGroups

/-- Disjoint segments may be inserted in any order, and each insertion tells the
value that it replaces: the map answers for every code point with the value of
the one segment that contains it, and with none if there is none. So a
character that is not ASCII has the group of its own entry or else that of its
segment, and an ASCII character that of the table. -/
theorem lookup_among_disjoint_segments :
    (∀ {α : Type} {entries : List (Segment × α)}, SegmentMap.Apart entries →
        (SegmentMap.ofList entries).Answers entries
          ∧ (∀ v, ∀ e ∈ entries, ∀ f ∈ entries, e.1.Contains v → f.1.Contains v → e.1 = f.1)
          ∧ (∀ before k x, (SegmentMap.ofList (α := α) before).exchange k x
            = (SegmentMap.given? before k, .ofList (before ++ [(k, x)])))
          ∧ (∀ others : List (Segment × α),
            (∀ k, SegmentMap.given? others k = SegmentMap.given? entries k) →
              SegmentMap.ofList others = .ofList entries)
          ∧ ∀ others : List (Segment × α), others.Perm entries → (entries.map (·.1)).Nodup →
            SegmentMap.ofList others = .ofList entries)
      ∧ ∀ (g : CharGroups) (segments : List (Segment × GroupId)), SegmentMap.Apart segments →
        g.segments = .ofList segments → ∀ c : Char,
          (c.toNat < 128 → g.group? c = g.ascii[c.toNat]?)
            ∧ (128 ≤ c.toNat → ∀ group, g.group? c = some group ↔
              g.chars.get? c = some group
                ∨ g.chars.get? c = none ∧ ∃ k : Segment, k.Contains c.toNat
                  ∧ SegmentMap.given? segments k = some group) := by
  constructor
  · intro α entries h
    refine ⟨h.answers, fun v e he f hf => h.eq_of_contains he hf, ?_, ?_, ?_⟩
    · intro before k x
      rw [SegmentMap.exchange, SegmentMap.find?_ofList, SegmentMap.ofList_concat]
    · intro others hgiven
      exact SegmentMap.ofList_congr hgiven
    · intro others hperm hnodup
      exact SegmentMap.ofList_congr (SegmentMap.given?_of_perm hperm hnodup)
  · intro g segments h hsegments c
    exact ⟨CharGroups.group?_of_ascii,
      fun hc group => CharGroups.group?_eq_some_iff h hsegments hc⟩

/-- Two neighbours, one segment that is given a second value, and the least and
the greatest bound there can be. -/
theorem lookup_among_disjoint_segments_neighbours :
    let segments : List (Segment × GroupId) := [(⟨0x4e00, 0x4e00⟩, 3), (⟨0xe000, 0xffffffff⟩, 9),
      (⟨0, 0xbf⟩, 1), (⟨0xc0, 0xff⟩, 5), (⟨0x4e00, 0x4e00⟩, 4)]
    SegmentMap.Apart segments
      ∧ (SegmentMap.ofList segments).get? 0 = some 1
      ∧ (SegmentMap.ofList segments).get? 0xc0 = some 5
      ∧ (SegmentMap.ofList segments).get? 0x100 = none
      ∧ (SegmentMap.ofList segments).get? 0x4e00 = some 4
      ∧ (SegmentMap.ofList segments).get? 0xffffffff = some 9
      ∧ ({ segments := .ofList segments } : CharGroups).group? 'À' = some 5 := by
  intro segments
  have hapart : SegmentMap.Apart segments := by decide
  obtain ⟨hanswers, -⟩ := lookup_among_disjoint_segments.1 hapart
  have hgroups := lookup_among_disjoint_segments.2 { segments := .ofList segments } segments hapart
    rfl 'À'
  refine ⟨hapart, (hanswers.found _ _).mpr ⟨⟨0, 0xbf⟩, by decide, by decide⟩,
    (hanswers.found _ _).mpr ⟨⟨0xc0, 0xff⟩, by decide, by decide⟩,
    (hanswers.missing _).mpr (by decide),
    (hanswers.found _ _).mpr ⟨⟨0x4e00, 0x4e00⟩, by decide, by decide⟩,
    (hanswers.found _ _).mpr ⟨⟨0xe000, 0xffffffff⟩, by decide, by decide⟩, ?_⟩
  exact (hgroups.2 (by decide) 5).mpr (.inr ⟨rfl, ⟨0xc0, 0xff⟩, by decide, by decide⟩)

end ModalLexer
