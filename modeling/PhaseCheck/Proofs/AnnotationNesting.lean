import Mathlib.Data.List.Chain
import Mathlib.Data.List.Forall2
import PhaseCheck.Proofs.AnnotationTree
import PhaseCheck.Proofs.Binary.Yields

set_option autoImplicit false

namespace PhaseCheck

open Reader

theorem forall₂_of_mapM_ok {ε α β : Type} {step : α → Except ε β} {items : List α} {values : List β}
    (ran : items.mapM step = .ok values) : List.Forall₂ (fun item value => step item = .ok value) items values := by
  induction items generalizing values with
  | nil =>
    cases ran
    exact .nil
  | cons item rest ih =>
    rw [List.mapM_cons] at ran
    obtain ⟨value, here, ran⟩ := values_of_bind_ok ran
    obtain ⟨others, there, ran⟩ := values_of_bind_ok ran
    cases ran
    exact .cons here (ih there)

namespace ElementValue

def parts : ElementValue → List ElementValue
  | .nested note => note.elements.map Prod.snd
  | .array values => values
  | _ => []

def isContainer : ElementValue → Bool
  | .nested _ | .array _ => true
  | _ => false

/-- Arrays and annotations, each directly in the one before. -/
structure IsNest (chain : List ElementValue) : Prop where
  containers : ∀ value ∈ chain, value.isContainer = true
  inside : chain.IsChain fun outer inner => inner ∈ outer.parts

inductive Holds (inner : AnnotationTree) : ElementValue → Prop where
  | here : Holds inner (.nested inner)
  | deeper {value part : ElementValue} (inside : part ∈ value.parts) (holds : Holds inner part) : Holds inner value

/-- At most so many levels of arrays and annotations, the annotations all with one retention. -/
def Fits (retention : Retention) : Nat → ElementValue → Prop
  | 0, value => value.isContainer = false
  | levels + 1, value =>
    (∀ note, value = .nested note → note.retention = retention) ∧ ∀ part ∈ value.parts, Fits retention levels part

namespace Fits

variable {retention : Retention} {levels : Nat} {value : ElementValue}

theorem plain (simple : value.isContainer = false) : Fits retention levels value := by
  cases levels with
  | zero => exact simple
  | succ levels =>
    cases value with
    | nested | array => cases simple
    | primitive | string | enum | «class» => exact ⟨by rintro _ ⟨⟩, by simp [parts]⟩

theorem length_le {rest : List ElementValue} (fits : Fits retention levels value) (nest : IsNest (value :: rest)) :
    (value :: rest).length ≤ levels := by
  induction levels generalizing value rest with
  | zero =>
    have container := nest.containers value (List.mem_cons_self ..)
    rw [fits] at container
    cases container
  | succ levels ih =>
    cases rest with
    | nil => simp
    | cons next more =>
      obtain ⟨inside, chain⟩ := List.isChain_cons_cons.mp nest.inside
      have containers : ∀ other ∈ next :: more, other.isContainer = true :=
        fun other present => nest.containers other (List.mem_cons_of_mem _ present)
      exact Nat.succ_le_succ (ih (fits.2 next inside) ⟨containers, chain⟩)

theorem retention_eq {inner : AnnotationTree} (fits : Fits retention levels value) (holds : Holds inner value) :
    inner.retention = retention := by
  induction holds generalizing levels with
  | here =>
    cases levels with
    | zero => cases fits
    | succ levels => exact fits.1 inner rfl
  | @deeper value part inside _ ih =>
    cases levels with
    | zero =>
      -- A value that is no container has no parts.
      cases value with
      | nested | array => cases fits
      | primitive | string | enum | «class» => cases inside
    | succ levels => exact ih (fits.2 part inside)

end Fits

end ElementValue

namespace AnnotationOf

theorem read_yields {α : Type} {pool : Pool} {retention : Retention} {value : Reader α} {holds : α → Prop}
    (each : Yields value holds) :
    Yields (AnnotationOf.read pool retention value) fun note =>
      note.retention = retention ∧ ∀ part ∈ note.elements.map Prod.snd, holds part := by
  have element : Yields (do let name ← pool.text (← u16); return (name, ← value)) fun element => holds element.2 :=
    .andThen fun _ => .andThen fun _ => .using_first each fun _ known => .done known
  refine .andThen fun _ => .andThen fun _ => .andThen fun _ => .using_first element.counted fun elements known => ?_
  refine .done ⟨rfl, fun part present => ?_⟩
  obtain ⟨element, listed, rfl⟩ := List.mem_map.mp present
  exact known element listed

end AnnotationOf

namespace ElementValue

theorem read_fits (pool : Pool) (retention : Retention) (levels : Nat) :
    Yields (read pool retention levels) (Fits retention levels) := by
  unfold read
  refine .andThen fun tag => ?_
  split
  · exact .andThen fun _ => .done (.plain rfl)
  · exact .andThen fun _ => .andThen fun _ => .done (.plain rfl)
  · exact .andThen fun _ => .done (.plain rfl)
  · cases levels with
    | zero => exact .failed _
    | succ levels =>
      refine .using_first (AnnotationOf.read_yields (read_fits pool retention levels)) fun note known => .done ⟨?_, known.2⟩
      rintro _ ⟨⟩
      exact known.1
  · cases levels with
    | zero => exact .failed _
    | succ levels =>
      refine .using_first (read_fits pool retention levels).counted fun values known => .done ⟨?_, known⟩
      rintro _ ⟨⟩
  · split
    · exact .andThen fun _ => .done (.plain rfl)
    · exact .failed _

end ElementValue

namespace AnnotationTree

variable {pool : Pool}

theorem read_fits (retention : Retention) :
    Yields (AnnotationTree.read pool retention) fun note =>
      ElementValue.Fits retention (ElementValue.maxDepth + 1) (.nested note) := by
  intro cursor note final ran
  obtain ⟨same, parts⟩ := AnnotationOf.read_yields (ElementValue.read_fits pool retention ElementValue.maxDepth) ran
  refine ⟨?_, parts⟩
  rintro _ ⟨⟩
  exact same

theorem attributeName_of_ofAttributeName? {name : String} {retention : Retention}
    (known : Retention.ofAttributeName? name = some retention) : name = retention.attributeName := by
  unfold Retention.ofAttributeName? at known
  split at known
  next same => cases known; exact same
  next =>
    split at known
    next same => cases known; exact same
    next => cases known

theorem ofAttribute_fits {item : Attribute} {notes : List AnnotationTree} (decoded : ofAttribute pool item = .ok notes) :
    ∀ note ∈ notes, item.name = note.retention.attributeName ∧
      ElementValue.Fits note.retention (ElementValue.maxDepth + 1) (.nested note) := by
  unfold ofAttribute at decoded
  split at decoded
  next retention known =>
    intro note present
    have fits := (read_fits retention).counted.whole decoded note present
    have same : note.retention = retention := fits.1 note rfl
    rw [same]
    exact ⟨attributeName_of_ofAttributeName? known, fits⟩
  next =>
    cases decoded
    simp

theorem ofAttributes_append (pool : Pool) (attributes others : List Attribute) :
    ofAttributes pool (attributes ++ others) =
      (do return (← ofAttributes pool attributes) ++ (← ofAttributes pool others)) :=
  mapM_flatten_append (ofAttribute pool) attributes others

/-- Whatever the bytes, annotations come attribute by attribute. Below none of them arrays and annotations nest more than
64 deep, and each of them, with all that nest in it, has the retention that its attribute stands for. More attributes add
their annotations at the end, and the first attributes that fail to decode decide about the error. -/
theorem ofAttributes_nested_in_order (pool : Pool) (attributes : List Attribute) :
    (∀ notes, ofAttributes pool attributes = .ok notes → ∃ groups, notes = groups.flatten ∧
      List.Forall₂ (fun item group => ofAttribute pool item = .ok group ∧ ∀ note ∈ group,
        (∀ chain, ElementValue.IsNest (.nested note :: chain) → chain.length ≤ 64) ∧
        ∀ inner, ElementValue.Holds inner (.nested note) → item.name = inner.retention.attributeName) attributes groups) ∧
    ∀ others,
      (∀ notes more, ofAttributes pool attributes = .ok notes → ofAttributes pool others = .ok more →
        ofAttributes pool (attributes ++ others) = .ok (notes ++ more)) ∧
      (∀ cause, ofAttributes pool attributes = .error cause → ofAttributes pool (attributes ++ others) = .error cause) ∧
      ∀ notes cause, ofAttributes pool attributes = .ok notes → ofAttributes pool others = .error cause →
        ofAttributes pool (attributes ++ others) = .error cause := by
  refine ⟨fun notes decoded => ?_, fun others => ⟨?_, ?_, ?_⟩⟩
  · obtain ⟨groups, ran, decoded⟩ := values_of_bind_ok decoded
    cases decoded
    refine ⟨groups, rfl, (forall₂_of_mapM_ok ran).imp fun item group here => ⟨here, fun note present => ?_⟩⟩
    obtain ⟨named, fits⟩ := ofAttribute_fits here note present
    constructor
    · intro chain nest
      exact Nat.le_of_succ_le_succ (fits.length_le nest)
    · intro inner holds
      rw [fits.retention_eq holds]
      exact named
  · intro notes more first second
    rw [ofAttributes_append, first, second]
    rfl
  · intro cause first
    rw [ofAttributes_append, first]
    rfl
  · intro notes cause first second
    rw [ofAttributes_append, first, second]
    rfl

def towerAttribute (retention : Retention) (value : ValueLayout towerPool) : Attribute :=
  ⟨retention.attributeName, Counted.bytes AnnotationLayout.bytes ⟨[towerNote value], by simp⟩⟩

theorem ofAttribute_towerAttribute (retention : Retention) {value : ValueLayout towerPool}
    (shallow : value.depth ≤ ElementValue.maxDepth) :
    ofAttribute towerPool (towerAttribute retention value) = .ok [(towerNote value).tree retention] := by
  have below : largest ([towerNote value].map AnnotationLayout.depth) ≤ ElementValue.maxDepth := by
    rw [List.map_singleton, depth_towerNote, largest_le_iff]
    simpa using shallow
  simp only [ofAttribute, towerAttribute, Retention.ofAttributeName?_attributeName]
  exact (counted_reads (AnnotationLayout.reads retention) (by simp) below).whole

def towerAttributes : List Attribute :=
  [towerAttribute .visible (tower 32), ⟨"Code", []⟩, towerAttribute .invisible (tower 1)]

def cutAttribute : Attribute :=
  ⟨"RuntimeVisibleAnnotations", [0]⟩

theorem ofAttributes_nested_in_order_towers :
    ∃ high low cause, ofAttributes towerPool towerAttributes = .ok [high, low] ∧
      (∀ chain, ElementValue.IsNest (.nested high :: chain) → chain.length ≤ 64) ∧
      (∀ inner, ElementValue.Holds inner (.nested high) → "RuntimeVisibleAnnotations" = inner.retention.attributeName) ∧
      (∀ inner, ElementValue.Holds inner (.nested low) → "RuntimeInvisibleAnnotations" = inner.retention.attributeName) ∧
      ofAttributes towerPool (towerAttributes ++ towerAttributes) = .ok [high, low, high, low] ∧
      ofAttributes towerPool [cutAttribute] = .error cause ∧
      ofAttributes towerPool (towerAttributes ++ [cutAttribute]) = .error cause ∧
      ofAttributes towerPool ([cutAttribute] ++ towerAttributes) = .error cause := by
  have high := ofAttribute_towerAttribute .visible (Nat.le_of_eq (depth_tower 32))
  have low : ofAttribute towerPool (towerAttribute .invisible (tower 1)) = _ :=
    ofAttribute_towerAttribute .invisible (by rw [depth_tower]; decide)
  have decoded : ofAttributes towerPool towerAttributes =
      .ok [(towerNote (tower 32)).tree .visible, (towerNote (tower 1)).tree .invisible] := by
    have none : ofAttribute towerPool ⟨"Code", []⟩ = .ok [] := rfl
    simp only [ofAttributes, towerAttributes, List.mapM_cons, List.mapM_nil, high, low, none]
    rfl
  have cut : ofAttributes towerPool [cutAttribute] = .error (.unexpectedEnd 0 2) := rfl
  obtain ⟨each, more⟩ := ofAttributes_nested_in_order towerPool towerAttributes
  obtain ⟨groups, _, aligned⟩ := each _ decoded
  obtain _ | ⟨⟨first, fitsHigh⟩, _ | ⟨_, _ | ⟨⟨third, fitsLow⟩, _⟩⟩⟩ := aligned
  rw [high] at first
  rw [low] at third
  cases first
  cases third
  obtain ⟨depth, visible⟩ := fitsHigh _ (List.mem_singleton_self _)
  obtain ⟨_, invisible⟩ := fitsLow _ (List.mem_singleton_self _)
  exact ⟨_, _, _, decoded, depth, visible, invisible, (more towerAttributes).1 _ _ decoded decoded, cut,
    (more [cutAttribute]).2.2 _ _ decoded cut,
    (ofAttributes_nested_in_order towerPool [cutAttribute]).2 towerAttributes |>.2.1 _ cut⟩

end AnnotationTree

end PhaseCheck
