import CrudBackend.Generation
import CrudBackend.Proofs.Reading

/-!
The mounts of the aggregate router. No two entities of a specification share module and stem, but a
mount puts the two together with a separator, and where one pair ends and the next begins cannot be
told from the result: two mounts have the same name exactly if one module goes on, behind a
separator, with what the stem of the other entity begins with.
-/

namespace CrudBackend

/-! ### Texts around a separator -/

/-- Two texts that are put together around a separator agree if they are the same two, or if the
one on the left of either goes on over the separator into the one on the right of the other. -/
theorem append_separator_eq_iff {c : Char} {a b a' b' : List Char} :
    a ++ c :: b = a' ++ c :: b' ↔ (a = a' ∧ b = b') ∨
      (∃ w, a' = a ++ c :: w ∧ b = w ++ c :: b') ∨ ∃ w, a = a' ++ c :: w ∧ b' = w ++ c :: b := by
  constructor
  · intro h
    rcases List.append_eq_append_iff.mp h with ⟨more, ha, hb⟩ | ⟨more, ha, hb⟩
    · cases more with
      | nil => exact Or.inl ⟨by simpa using ha.symm, by simpa using hb⟩
      | cons d w =>
        rw [List.cons_append, List.cons.injEq] at hb
        exact Or.inr (Or.inl ⟨w, hb.1 ▸ ha, hb.2⟩)
    · cases more with
      | nil => exact Or.inl ⟨by simpa using ha, by simpa using hb.symm⟩
      | cons d w =>
        rw [List.cons_append, List.cons.injEq] at hb
        exact Or.inr (Or.inr ⟨w, hb.1 ▸ ha, hb.2⟩)
  · rintro (⟨rfl, rfl⟩ | ⟨w, rfl, rfl⟩ | ⟨w, rfl, rfl⟩)
    · rfl
    · simp
    · simp

/-! ### Entities whose module and stem run into each other -/

namespace Entity

/-- The module of the second entity goes on from that of the first one, behind a separator, with
what the stem of the first one has before that of the second one. -/
def RunsInto (separator : String) (e e' : Entity) : Prop :=
  ∃ w, e'.moduleName = e.moduleName ++ separator ++ w ∧ e.fileStem = w ++ separator ++ e'.fileStem

def joined (separator : String) (e : Entity) : String := e.moduleName ++ separator ++ e.fileStem

variable {separator : String} {c : Char} {e e' : Entity}

theorem joined_eq_iff (hc : separator.toList = [c]) :
    e.joined separator = e'.joined separator ↔
      e.fileKey = e'.fileKey ∨ e.RunsInto separator e' ∨ e'.RunsInto separator e := by
  have hlist : ∀ s t : String, (s ++ separator ++ t).toList = s.toList ++ c :: t.toList := by
    intro s t
    simp [hc]
  have hruns : ∀ d d' : Entity, d.RunsInto separator d' ↔ ∃ w,
      d'.moduleName.toList = d.moduleName.toList ++ c :: w ∧
        d.fileStem.toList = w ++ c :: d'.fileStem.toList := by
    intro d d'
    constructor
    · rintro ⟨w, hm, hs⟩
      exact ⟨w.toList, by rw [hm, hlist], by rw [hs, hlist]⟩
    · rintro ⟨w, hm, hs⟩
      refine ⟨String.ofList w, ?_, ?_⟩
      · rw [← String.toList_inj, hlist, String.toList_ofList, hm]
      · rw [← String.toList_inj, hlist, String.toList_ofList, hs]
  rw [joined, joined, ← String.toList_inj, hlist, hlist, append_separator_eq_iff, hruns, hruns,
    fileKey, fileKey, Prod.mk.injEq, String.toList_inj, String.toList_inj]

theorem RunsInto.goes_on (hc : separator.toList = [c]) (h : e.RunsInto separator e') :
    ∃ w, e'.moduleName.toList = e.moduleName.toList ++ c :: w := by
  obtain ⟨w, hm, -⟩ := h
  exact ⟨w.toList, by simp [hm, hc]⟩

/-- Two entities run into each other over one separator at most. -/
theorem RunsInto.separator_unique {separator' : String} {c' : Char} (hc : separator.toList = [c])
    (hc' : separator'.toList = [c']) (hne : c ≠ c') (h : e.RunsInto separator e') :
    ¬ e.RunsInto separator' e' ∧ ¬ e'.RunsInto separator' e := by
  obtain ⟨w, hw⟩ := h.goes_on hc
  refine ⟨fun h' => ?_, fun h' => ?_⟩
  · obtain ⟨w', hw'⟩ := h'.goes_on hc'
    rw [hw] at hw'
    exact hne (List.cons.inj (List.append_cancel_left hw')).1
  · obtain ⟨w', hw'⟩ := h'.goes_on hc'
    have hlength := congrArg List.length hw
    rw [hw'] at hlength
    simp at hlength

theorem RunsInto.ne (hc : separator.toList = [c]) (h : e.RunsInto separator e') : e ≠ e' := by
  obtain ⟨w, hw⟩ := h.goes_on hc
  rintro rfl
  have hlength := congrArg List.length hw
  simp at hlength

/-- Entities with files of their own get names of their own, where the name tells what the texts
around the separator are together, unless one of them runs into another. -/
theorem nodup_map_iff (hc : separator.toList = [c]) {entities : List Entity} {name : Entity → String}
    (hkeys : (entities.map fileKey).Nodup)
    (hname : ∀ e e' : Entity, name e = name e' ↔ e.joined separator = e'.joined separator) :
    (entities.map name).Nodup ↔
      ∀ e ∈ entities, ∀ e' ∈ entities, ¬ e.RunsInto separator e' := by
  constructor
  · intro hnodup e he e' he' hruns
    have hsame : name e = name e' :=
      (hname e e').mpr ((joined_eq_iff hc).mpr (Or.inr (Or.inl hruns)))
    exact hruns.ne hc (List.inj_on_of_nodup_map hnodup he he' hsame)
  · intro hapart
    refine List.Nodup.map_on ?_ (List.Nodup.of_map _ hkeys)
    intro e he e' he' hsame
    rcases (joined_eq_iff hc).mp ((hname e e').mp hsame) with hkey | hruns | hruns
    · exact List.inj_on_of_nodup_map hkeys he he' hkey
    · exact absurd hruns (hapart e he e' he')
    · exact absurd hruns (hapart e' he' e he)

end Entity

/-! ### Mounts -/

namespace Generation

open Artifact

/-- The module whose router bears a name behind all imports; a later import takes the name away
from an earlier one. -/
def routerNamed (mounts : List Mount) (name : String) : Option String :=
  (mounts.reverse.find? fun m => m.name == name).map Mount.module

variable {text : String} {s : Spec} {l : Layout}

theorem routerNamed_eq_some {ms : List Mount} {m : Mount} (h : m ∈ ms) :
    ∃ m' ∈ ms, m'.name = m.name ∧ routerNamed ms m.name = some m'.module := by
  cases hfind : ms.reverse.find? fun m' => m'.name == m.name with
  | none =>
    have hnot := List.find?_eq_none.mp hfind m (List.mem_reverse.mpr h)
    simp at hnot
  | some m' =>
    have hsame := List.find?_some hfind
    refine ⟨m', List.mem_reverse.mp (List.mem_of_find?_eq_some hfind), by simpa using hsame, ?_⟩
    rw [routerNamed, hfind, Option.map_some]

theorem mountOf_name_eq_iff {e e' : Entity} :
    (mountOf l e).name = (mountOf l e').name ↔ e.joined "_" = e'.joined "_" :=
  Iff.rfl

theorem mountOf_module_eq_iff {e e' : Entity} :
    (mountOf l e).module = (mountOf l e').module ↔ e.joined "." = e'.joined "." := by
  have hmodule : ∀ d : Entity, ((mountOf l d).module).toList =
      (l.apiPkg ++ ".").toList ++ (d.joined ".").toList := by
    intro d
    simp [mountOf, Layout.apiModule, Layout.moduleIn, Entity.joined]
  rw [← String.toList_inj, hmodule, hmodule, List.append_cancel_left_eq, String.toList_inj]

/-- The router is the last thing that a run brings out. It mounts the entities of an accepted
specification one by one, in order. Their names are distinct, and the router that a name stands for
is that of its entity, if and only if no entity runs into another one over an underscore; their
modules are distinct if and only if none does over a dot. -/
theorem mounts_are_distinct_iff (h : Spec.parse text = .ok s) (c : Config) (l : Layout) (i : Imports)
    (spec : RawPath) :
    (∃ front, pieces s c l i spec = front ++ [.generated l.routerFile (router (mounts s l))]) ∧
    mounts s l =
      s.entities.map (fun e => ⟨l.apiModule e, e.moduleName ++ "_" ++ e.fileStem⟩) ∧
    (((mounts s l).map Mount.name).Nodup ↔
      ∀ e ∈ s.entities, ∀ e' ∈ s.entities, ¬ e.RunsInto "_" e') ∧
    (((mounts s l).map Mount.module).Nodup ↔
      ∀ e ∈ s.entities, ∀ e' ∈ s.entities, ¬ e.RunsInto "." e') ∧
    ((∀ m ∈ mounts s l, routerNamed (mounts s l) m.name = some m.module) ↔
      ∀ e ∈ s.entities, ∀ e' ∈ s.entities, ¬ e.RunsInto "_" e') := by
  have hkeys := Spec.nodup_fileKey_of_parse h
  have hnames : ((mounts s l).map Mount.name).Nodup ↔
      ∀ e ∈ s.entities, ∀ e' ∈ s.entities, ¬ e.RunsInto "_" e' := by
    rw [mounts, List.map_map]
    exact Entity.nodup_map_iff rfl hkeys fun _ _ => mountOf_name_eq_iff
  refine ⟨⟨_, rfl⟩, rfl, hnames, ?_, ?_⟩
  · rw [mounts, List.map_map]
    exact Entity.nodup_map_iff rfl hkeys fun _ _ => mountOf_module_eq_iff
  · constructor
    · intro hown e he e' he' hruns
      have hsame : (mountOf l e).name = (mountOf l e').name :=
        mountOf_name_eq_iff.mpr ((Entity.joined_eq_iff rfl).mpr (Or.inr (Or.inl hruns)))
      have hmodule : (mountOf l e).module = (mountOf l e').module := by
        have he := hown _ (List.mem_map_of_mem he)
        have he' := hown _ (List.mem_map_of_mem he')
        rw [hsame, he'] at he
        exact (Option.some.inj he).symm
      have hdot : ".".toList = ['.'] := rfl
      obtain ⟨hforth, hback⟩ := hruns.separator_unique rfl hdot (by decide)
      rcases (Entity.joined_eq_iff hdot).mp (mountOf_module_eq_iff.mp hmodule) with hkey | hd | hd
      · exact hruns.ne rfl (List.inj_on_of_nodup_map hkeys he he' hkey)
      · exact hforth hd
      · exact hback hd
    · intro hapart m hm
      obtain ⟨m', hm', hname, hrouter⟩ := routerNamed_eq_some hm
      rw [hrouter, List.inj_on_of_nodup_map (hnames.mpr hapart) hm' hm hname]

def shopSpecText : String :=
  "[\x7b\"className\": \"Order\", \"tableName\": \"orders\", \"moduleName\": \"shop\"\x7d, " ++
    "\x7b\"className\": \"OrderItem\", \"tableName\": \"items\", \"moduleName\": \"shop\"\x7d]"

def order : Entity := ⟨"Order", "orders", "shop", "", "Order", [], [], [], true, true⟩

def orderItem : Entity := ⟨"OrderItem", "items", "shop", "", "OrderItem", [], [], [], true, true⟩

def defaultLayout : Layout := Layout.of ⟨"out"⟩ {}

theorem shop_mounts_are_distinct :
    Spec.parse shopSpecText = .ok ⟨[], [order, orderItem]⟩ ∧
    ∀ m ∈ mounts ⟨[], [order, orderItem]⟩ defaultLayout,
      routerNamed (mounts ⟨[], [order, orderItem]⟩ defaultLayout) m.name = some m.module := by
  have hparse : Spec.parse shopSpecText = .ok ⟨[], [order, orderItem]⟩ :=
    eq_ok_of_toOption (by decide +kernel)
  obtain ⟨-, -, hnames, -, hrouters⟩ := mounts_are_distinct_iff hparse {} defaultLayout
    ⟨⟨"app.models.base", "Base"⟩, ⟨"app.deps", []⟩, ⟨"app.common.res", "Res"⟩⟩ (.ofText "shop.json")
  exact ⟨hparse, hrouters.mpr (hnames.mp (by decide +kernel))⟩

/-- The entity `Item` of a module that has the first word of `OrderItem` in its own name. -/
def crossedSpecText : String :=
  "[\x7b\"className\": \"OrderItem\", \"tableName\": \"items\", \"moduleName\": \"shop\"\x7d, " ++
    "\x7b\"className\": \"Item\", \"tableName\": \"item\", \"moduleName\": \"shop_order\"\x7d]"

def crossedItem : Entity := ⟨"Item", "item", "shop_order", "", "Item", [], [], [], true, true⟩

/-- Both entities are mounted under one name, and it stands for the router of the second one. -/
theorem crossed_mounts_share_name :
    (Spec.parse crossedSpecText).toOption = some ⟨[], [orderItem, crossedItem]⟩ ∧
    mounts ⟨[], [orderItem, crossedItem]⟩ defaultLayout =
      [⟨"app.api.shop.order_item", "shop_order_item"⟩,
       ⟨"app.api.shop_order.item", "shop_order_item"⟩] ∧
    routerNamed (mounts ⟨[], [orderItem, crossedItem]⟩ defaultLayout) "shop_order_item" =
      some "app.api.shop_order.item" := by
  refine ⟨?_, ?_, ?_⟩
  · decide +kernel
  · decide +kernel
  · decide +kernel

end Generation

end CrudBackend
