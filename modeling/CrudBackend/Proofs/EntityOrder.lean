import CrudBackend.Proofs.Acceptance
import CrudBackend.Proofs.Foresight

/-!
The order of the entities. Pieces that go to the same target commute, and a piece that has acted
leaves its own output as it is. So it does not matter in which order the pieces of a run are brought
out, nor how often, and a run over the same entities in another order leaves the same tree. Only the
router lists its imports and its mounts in the order of the entities.
-/

namespace CrudBackend

open FileTree Ownership Piece

/-! ### Pieces in any order -/

namespace Piece

variable {piece : Piece} {ps qs : List Piece} {e : Option Entry}

def Commute (p q : Piece) : Prop := ∀ e, p.onto (q.onto e) = q.onto (p.onto e)

theorem onto_ontoAll (hcomm : ∀ q ∈ ps, piece.Commute q) (e : Option Entry) :
    piece.onto (ontoAll ps e) = ontoAll ps (piece.onto e) := by
  induction ps generalizing e with
  | nil => rfl
  | cons q rest ih =>
    rw [List.forall_mem_cons] at hcomm
    rw [ontoAll_cons, ontoAll_cons, ih hcomm.2, hcomm.1]

/-- A piece that is among pieces that commute with it has nothing to add to them. -/
theorem onto_ontoAll_of_mem (hmem : piece ∈ ps) (hcomm : ∀ q ∈ ps, piece.Commute q)
    (honce : ∀ e, piece.onto (piece.onto e) = piece.onto e) (e : Option Entry) :
    piece.onto (ontoAll ps e) = ontoAll ps e := by
  obtain ⟨front, back, rfl⟩ := List.append_of_mem hmem
  have hback : ∀ q ∈ back, piece.Commute q := fun q hq => hcomm q (by simp [hq])
  rw [ontoAll_append, ontoAll_cons, onto_ontoAll hback, honce]

theorem ontoAll_ontoAll_of_subset (hsub : qs ⊆ ps) (hcomm : ∀ p ∈ ps, ∀ q ∈ ps, p.Commute q)
    (honce : ∀ p ∈ ps, ∀ e, p.onto (p.onto e) = p.onto e) (e : Option Entry) :
    ontoAll qs (ontoAll ps e) = ontoAll ps e := by
  induction qs with
  | nil => rfl
  | cons q rest ih =>
    obtain ⟨hq, hrest⟩ := List.cons_subset.mp hsub
    rw [ontoAll_cons, onto_ontoAll_of_mem hq (hcomm q hq) (honce q hq), ih hrest]

/-- Pieces that commute come to the same in any order, however often each is brought out. -/
theorem ontoAll_congr (hmem : ∀ p, p ∈ ps ↔ p ∈ qs) (hcomm : ∀ p ∈ ps, ∀ q ∈ ps, p.Commute q)
    (honce : ∀ p ∈ ps, ∀ e, p.onto (p.onto e) = p.onto e) (e : Option Entry) :
    ontoAll ps e = ontoAll qs e := by
  have hqs : ∀ q ∈ qs, q ∈ ps := fun q hq => (hmem q).mpr hq
  have hswap : ontoAll (ps ++ qs) e = ontoAll (qs ++ ps) e := by
    refine List.perm_append_comm.foldl_eq' ?_ e
    intro p hp q hq e
    have hp : p ∈ ps := (List.mem_append.mp hp).elim id (hqs p)
    have hq : q ∈ ps := (List.mem_append.mp hq).elim id (hqs q)
    exact hcomm q hq p hp e
  calc ontoAll ps e
      = ontoAll qs (ontoAll ps e) := (ontoAll_ontoAll_of_subset hqs hcomm honce e).symm
    _ = ontoAll ps (ontoAll qs e) := by rwa [← ontoAll_append, ← ontoAll_append]
    _ = ontoAll qs e := by
        refine ontoAll_ontoAll_of_subset (fun p hp => (hmem p).mp hp) ?_ ?_ e
        · exact fun p hp q hq => hcomm p (hqs p hp) q (hqs q hq)
        · exact fun p hp => honce p (hqs p hp)

/-- A package and a file that is generated in its place come to the generated file. -/
theorem commute_package_generated (dir p : Path) (text : String) :
    (package dir).Commute (generated p text) := by
  rintro (- | - | bytes)
  · have hover : (generated p text).onto (some (.file (Text.encode Output.initText))) =
        some (.file (Text.encode text)) := if_pos Output.isMarked_initText
    exact hover.symm
  · rfl
  · simp only [onto]
    split_ifs <;> rfl

end Piece

structure Spec.SameButOrder (s s' : Spec) : Prop where
  enums : s.enums = s'.enums
  entities : s.entities.Perm s'.entities

namespace Spec.SameButOrder

variable {s s' : Spec}

theorem symm (h : s.SameButOrder s') : s'.SameButOrder s := ⟨h.enums.symm, h.entities.symm⟩

theorem plain (h : s.SameButOrder s') (hs : s.Plain) : s'.Plain :=
  fun e he => hs e (h.entities.mem_iff.mpr he)

theorem consistent (h : s.SameButOrder s') (hs : s.Consistent) : s'.Consistent where
  fields e he := h.enums ▸ hs.fields e (h.entities.mem_iff.mpr he)
  params e he := h.enums ▸ hs.params e (h.entities.mem_iff.mpr he)
  columns e he := hs.columns e (h.entities.mem_iff.mpr he)
  files := (h.entities.map Entity.fileKey).nodup_iff.mp hs.files

end Spec.SameButOrder

/-! ### Routers -/

namespace Artifact

def Mount.importLine (m : Mount) : String :=
  "from " ++ m.module ++ " import router as " ++ m.name ++ "_router"

def Mount.includeLine (m : Mount) : String := "api_router.include_router(" ++ m.name ++ "_router)"

def routerLines (imports includes : List String) : List String :=
  ["from fastapi import APIRouter", ""] ++ imports ++ ["", "api_router = APIRouter()", ""] ++ includes

theorem router_eq (mounts : List Mount) : router mounts =
    generated (routerLines (mounts.map Mount.importLine) (mounts.map Mount.includeLine)) := rfl

/-- Two texts are routers with the same lines, but for the order of their imports and mounts. -/
def SameRouter (text text' : String) : Prop :=
  ∃ mounts mounts' : List Mount, mounts.Perm mounts' ∧
    text = generated
      (routerLines (mounts.map Mount.importLine) (mounts.map Mount.includeLine)) ∧
    text' = generated
      (routerLines (mounts'.map Mount.importLine) (mounts'.map Mount.includeLine))

end Artifact

namespace Generation

variable {s s' : Spec} {c : Config} {l : Layout} {i : Imports} {dir : Path} {spec : RawPath}
  {way : List String} {piece other : Piece} {t u u' : FileTree} {j : Job} {k : Location}

theorem sameRouter_mounts (h : s.SameButOrder s') (l : Layout) :
    Artifact.SameRouter (Artifact.router (mounts s l)) (Artifact.router (mounts s' l)) :=
  ⟨mounts s l, mounts s' l, h.entities.map _, Artifact.router_eq _, Artifact.router_eq _⟩

/-! ### The pieces of a run -/

theorem Goes.commute (hnodup : (s.entities.map Entity.fileKey).Nodup) (hdirs : l.packageDirs.Nodup)
    (h : Goes s c l i spec dir way piece) (h' : Goes s c l i spec dir way other) :
    piece.Commute other := by
  rcases h.piece_eq_or hnodup hdirs h' rfl rfl with
    rfl | ⟨-, d, p, text, ⟨rfl, rfl⟩ | ⟨rfl, rfl⟩⟩
  · exact fun e => rfl
  · exact commute_package_generated d p text
  · exact fun e => (commute_package_generated d p text e).symm

/-- In another order, a piece goes where it went. The router goes there with another text. -/
theorem Goes.exists_of_order (horder : s.SameButOrder s') (h : Goes s c l i spec dir way piece) :
    ∃ other, Goes s' c l i spec dir way other ∧ (piece.target ≠ l.routerFile → other = piece) := by
  have hin : ∀ e ∈ s.entities, e ∈ s'.entities := fun e he => horder.entities.mem_iff.mp he
  have henums : Artifact.enums s = Artifact.enums s' := by
    rw [Artifact.enums, Artifact.enums, horder.enums]
  cases h with
  | package hd => exact ⟨_, .package hd, fun _ => rfl⟩
  | modulePackage hr he => exact ⟨_, .modulePackage hr (hin _ he), fun _ => rfl⟩
  | mark hr he => exact ⟨_, .mark hr (hin _ he), fun _ => rfl⟩
  | file he hf => exact ⟨_, .file (hin _ he) hf, fun _ => rfl⟩
  | draft he hx => exact ⟨_, .draft (hin _ he) hx, fun _ => rfl⟩
  | shared hs =>
    simp only [sharedTexts, henums, List.mem_cons, Prod.mk.injEq, List.not_mem_nil, or_false] at hs
    rcases hs with hs | hs | hs | hs | hs | ⟨rfl, rfl, rfl⟩
    on_goal 6 =>
      refine ⟨.generated l.routerFile (Artifact.router (mounts s' l)), ?_, fun h => absurd rfl h⟩
      exact .shared (by simp [sharedTexts])
    all_goals
      obtain ⟨rfl, rfl, rfl⟩ := hs
      exact ⟨_, .shared (by simp [sharedTexts]), fun _ => rfl⟩

theorem goes_router (s : Spec) (c : Config) (l : Layout) (i : Imports) (spec : RawPath) :
    Goes s c l i spec l.apiDir ["router.py"]
      (.generated l.routerFile (Artifact.router (mounts s l))) :=
  .shared (by simp [sharedTexts])

/-- Nothing but the router goes where the router goes. -/
theorem Goes.eq_router (h : Goes s c l i spec l.apiDir ["router.py"] piece) :
    piece = .generated l.routerFile (Artifact.router (mounts s l)) := by
  generalize hdir : l.apiDir = dir at h
  generalize hway : ["router.py"] = way at h
  cases h with
  | package hd => simp at hway
  | shared hs =>
    obtain rfl := List.singleton_inj.mp hway
    subst hdir
    have hrouter : (l.apiDir, "router.py", Artifact.router (mounts s l)) ∈ sharedTexts s l := by
      simp [sharedTexts]
    rw [text_eq_of_mem_sharedTexts hs hrouter]
    rfl
  | _ => simp at hway

theorem renewed_router (hs : s.Plain) (hl : l.Straight) (ha : l.Apart t)
    (hall : Output.AllLeft t u (pieces s c l i spec)) :
    Renewed t u l.routerFile (Artifact.router (mounts s l)) := by
  have hrouter := (goes_router s c l i spec).get?_target_of_only hs hl ha hall
    fun _ h => h.eq_router
  exact renewed_of_onto hrouter

section

variable (horder : s.SameButOrder s') (hs : s.Plain) (hl : l.Straight) (ha : l.Apart t)
include horder hs hl ha

theorem isAbove_of_order (h : IsAbove t (pieces s c l i spec) k) :
    IsAbove t (pieces s' c l i spec) k := by
  obtain ⟨piece, hin, hpre, hne⟩ := h
  obtain ⟨dir, way, hg⟩ := goes_of_mem_pieces hin
  obtain ⟨other, hg', -⟩ := hg.exists_of_order horder
  have htarget : other.target = piece.target := by rw [hg'.target_eq, hg.target_eq]
  exact ⟨other, hg'.mem_pieces (horder.plain hs) hl ha, htarget ▸ hpre, htarget ▸ hne⟩

theorem mem_aimedAt_of_order (hk : k ≠ t.place l.routerFile)
    (h : piece ∈ aimedAt t (pieces s c l i spec) k) :
    piece ∈ aimedAt t (pieces s' c l i spec) k := by
  obtain ⟨hin, hplace⟩ := List.mem_filter.mp h
  obtain ⟨dir, way, hg⟩ := goes_of_mem_pieces hin
  obtain ⟨other, hg', heq⟩ := hg.exists_of_order horder
  have hrouter : piece.target ≠ l.routerFile := by
    intro htarget
    rw [htarget] at hplace
    exact hk (of_decide_eq_true hplace).symm
  obtain rfl := heq hrouter
  exact List.mem_filter.mpr ⟨hg'.mem_pieces (horder.plain hs) hl ha, hplace⟩

/-- Away from the router, the pieces of both orders leave the same. -/
theorem get?_eq_of_order (hnodup : (s.entities.map Entity.fileKey).Nodup)
    (hall : Output.AllLeft t u (pieces s c l i spec))
    (hall' : Output.AllLeft t u' (pieces s' c l i spec)) (hk : k ≠ t.place l.routerFile) :
    u'.get? k = u.get? k := by
  have hs' := horder.plain hs
  by_cases habove : IsAbove t (pieces s c l i spec) k
  · rw [hall.above k habove, hall'.above k (isAbove_of_order horder hs hl ha habove)]
  have habove' : ¬ IsAbove t (pieces s' c l i spec) k := fun h =>
    habove (isAbove_of_order horder.symm hs' hl ha h)
  have haim : ∀ piece ∈ aimedAt t (pieces s c l i spec) k,
      (∃ dir way, Goes s c l i spec dir way piece) ∧ t.place piece.target = k := fun piece hin =>
    ⟨goes_of_mem_pieces (List.mem_filter.mp hin).1, of_decide_eq_true (List.mem_filter.mp hin).2⟩
  rw [hall.get?_eq k habove, hall'.get?_eq k habove']
  refine (ontoAll_congr (fun p => ⟨?_, ?_⟩) ?_ ?_ _).symm
  · exact mem_aimedAt_of_order horder hs hl ha hk
  · exact mem_aimedAt_of_order horder.symm hs' hl ha hk
  · intro p hp q hq
    obtain ⟨⟨dir, way, hg⟩, hplace⟩ := haim p hp
    obtain ⟨⟨dir', way', hg'⟩, hplace'⟩ := haim q hq
    obtain ⟨rfl, rfl⟩ := hg.eq_of_isPrefix hs hs ha hg'
      (hplace.trans hplace'.symm ▸ List.prefix_refl _)
    exact hg.commute hnodup ha.nodup hg'
  · intro p hp
    obtain ⟨⟨dir, way, hg⟩, -⟩ := haim p hp
    exact hg.onto_onto

end

/-! ### Runs -/

/-- What two runs leave is the same, but for the order of the lines in their routers. -/
structure SameButRouter (j : Job) (t u u' : FileTree) : Prop where
  home : u'.home = u.home
  others : ∀ k, k ≠ t.place j.layout.routerFile → u'.get? k = u.get? k
  router : u'.get? (t.place j.layout.routerFile) = u.get? (t.place j.layout.routerFile) ∨
    ∃ text text', Artifact.SameRouter text text' ∧
      u.get? (t.place j.layout.routerFile) = some (.file (Text.encode text)) ∧
      u'.get? (t.place j.layout.routerFile) = some (.file (Text.encode text'))

/-- A specification whose entities come in another order is accepted as well. Runs over the two that
succeed leave the same, but for the order of the imports and of the mounts in the router. -/
theorem entity_order_does_not_matter (hw : t.WellFormed) {text : String}
    (hparse : Spec.parse text = .ok j.spec) (hs : j.spec.Plain) (hl : j.layout.Straight)
    (ha : j.layout.Apart t) (hdry : j.options.dryRun = false) (horder : j.spec.SameButOrder s') :
    s'.check = .ok () ∧ ∀ r u r' u', run j.spec j.config j.options t = .ok r u →
      run s' j.config j.options t = .ok r' u' → SameButRouter j t u u' := by
  have hconsistent := Spec.check_eq_ok_iff.mp (Spec.check_of_parse hparse)
  refine ⟨Spec.check_eq_ok_iff.mpr (horder.consistent hconsistent), ?_⟩
  intro r u r' u' hrun hrun'
  obtain ⟨imports, removed, v, outcomes, himports, hremovals, hperform, -⟩ := exists_of_run hdry hrun
  obtain ⟨imports', removed', v', outcomes', himports', hremovals', hperform', -⟩ :=
    exists_of_run (j := { j with spec := s' }) hdry hrun'
  -- Imports and removals do not depend on the specification.
  cases himports.symm.trans himports'
  cases hremovals.symm.trans hremovals'
  have htaken := taken_of_removals hw hl hdry hremovals
  have hav := ha.congr htaken.home
  have hall := Output.allLeft_performAll htaken.wellFormed
    (fun piece => ofFile_of_mem_pieces hs hl) hperform
  have hall' := Output.allLeft_performAll htaken.wellFormed
    (fun piece => ofFile_of_mem_pieces (horder.plain hs) hl) hperform'
  have hplace : v.place j.layout.routerFile = t.place j.layout.routerFile := place_congr htaken.home
  refine ⟨hall'.home.trans hall.home.symm, fun k hk => ?_, ?_⟩
  · rw [← hplace] at hk
    exact get?_eq_of_order horder hs hl hav hconsistent.files hall hall' hk
  · have hrouter := renewed_router hs hl hav hall
    have hrouter' := renewed_router (horder.plain hs) hl hav hall'
    rw [← hplace]
    by_cases hrenewable : Renewable (v.get? (v.place j.layout.routerFile))
    · exact Or.inr ⟨_, _, sameRouter_mounts horder _, hrouter.written hrenewable,
        hrouter'.written hrenewable⟩
    · exact Or.inl ((hrouter'.kept hrenewable).trans (hrouter.kept hrenewable).symm)

def turnedShopJob : Job := { shopJob with spec := ⟨[], [orderItem, order]⟩ }

theorem order_turnedShopJob : shopJob.spec.SameButOrder turnedShopJob.spec :=
  ⟨rfl, .swap orderItem order []⟩

theorem exists_run_turnedShopJob : ∃ report t',
    run turnedShopJob.spec turnedShopJob.config turnedShopJob.options ⟨[], []⟩ = .ok report t' := by
  obtain ⟨hplain, hstraight, hapart⟩ := shopJob_apart
  obtain ⟨hroomy, hresolve⟩ := orderJob_roomy
  have hnameable : turnedShopJob.spec.Nameable := fun e he =>
    shopJob_nameable e (order_turnedShopJob.entities.mem_iff.mpr he)
  exact exists_run (by decide) (order_turnedShopJob.plain hplain) hnameable hstraight hapart hroomy
    rfl rfl hresolve

theorem shop_order_does_not_matter : ∃ r u r' u', Spec.parse shopSpecText = .ok shopJob.spec ∧
    run shopJob.spec shopJob.config shopJob.options ⟨[], []⟩ = .ok r u ∧
    run turnedShopJob.spec shopJob.config shopJob.options ⟨[], []⟩ = .ok r' u' ∧
    SameButRouter shopJob ⟨[], []⟩ u u' := by
  obtain ⟨r, u, hrun⟩ := exists_run_shopJob
  obtain ⟨r', u', hrun'⟩ := exists_run_turnedShopJob
  obtain ⟨hplain, hstraight, hapart⟩ := shopJob_apart
  have hparse : Spec.parse shopSpecText = .ok shopJob.spec := eq_ok_of_toOption (by decide +kernel)
  obtain ⟨-, hsame⟩ := entity_order_does_not_matter (by decide) hparse hplain hstraight hapart rfl
    order_turnedShopJob
  exact ⟨r, u, r', u', hparse, hrun, hrun', hsame r u r' u' hrun hrun'⟩

end Generation

end CrudBackend
