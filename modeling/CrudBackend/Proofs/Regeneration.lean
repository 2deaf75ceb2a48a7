import CrudBackend.Proofs.Leftovers

/-!
Running the generator again. A second run decides differently from the first one, for it finds what
the first one left. It finds all its targets, so nothing keeps it from succeeding, and at every
location the pieces leave their own output as it is.
-/

namespace CrudBackend

open FileTree Ownership Piece

namespace Generation

variable {t t' : FileTree} {j : Job}

/-- A run without a cleaning that has succeeded succeeds again, and changes nothing then. -/
theorem regeneration_changes_nothing (hw : t.WellFormed) (hj : j.Straight)
    (hclean : j.options.clean = false) (hdry : j.options.dryRun = false) {report : Report}
    (hrun : run j.spec j.config j.options t = .ok report t') :
    ∃ again t'', run j.spec j.config j.options t' = .ok again t'' ∧ t''.home = t'.home ∧
      ∀ k, t''.get? k = t'.get? k := by
  obtain ⟨imports, outcomes, himports, hall⟩ := performAll_of_run hclean hdry hrun
  have hstraight : ∀ piece ∈ pieces j.spec j.config j.layout imports j.options.specPath,
      piece.target.Straight := fun piece => straight_target hj
  have hfile : ∀ piece ∈ pieces j.spec j.config j.layout imports j.options.specPath,
      piece.target.OfFile := by
    intro piece hin
    obtain ⟨dir, way, hg⟩ := goes_of_mem_pieces hin
    exact hg.ofFile (hstraight piece hin)
  have hleft := Output.allLeft_performAll hw hfile hall
  have hw' := hleft.wellFormed
  have hhome := hleft.home
  obtain ⟨outcomes', t'', hagain⟩ := Output.exists_performAll hw' hfile
    (fun piece hin => open_of_stands hw' (hfile piece hin).named (hleft.accepted piece hin)
      (place_congr hhome ▸ hleft.stands hin))
    (fun piece hin habove => by
      rw [isAbove_congr hhome, place_congr hhome] at habove
      rw [place_congr hhome]
      exact hleft.above _ habove)
    (fun dir spec hin => place_congr hhome ▸ hleft.not_marked dir spec hin)
  have hleft' := Output.allLeft_performAll hw' hfile hagain
  refine ⟨_, t'', run_of_removals hdry himports (removals_of_not_clean hclean) hagain, hleft'.home, ?_⟩
  intro k
  by_cases habove : IsAbove t (pieces j.spec j.config j.layout imports j.options.specPath) k
  · rw [hleft.above k habove, hleft'.above k ((isAbove_congr hhome).mpr habove)]
  · rw [hleft'.get?_eq k fun h => habove ((isAbove_congr hhome).mp h), hleft.get?_eq k habove,
      aimedAt_congr hhome]
    exact ontoAll_ontoAll_aimedAt hstraight k _

theorem order_run_changes_nothing_again : ∃ report t' again t'',
    run orderJob.spec orderJob.config orderJob.options ⟨[], []⟩ = .ok report t' ∧
    run orderJob.spec orderJob.config orderJob.options t' = .ok again t'' ∧
    ∀ k, t''.get? k = t'.get? k := by
  obtain ⟨report, t', hrun⟩ := exists_run_orderJob
  obtain ⟨hplain, hstraight, -⟩ := orderJob_apart
  obtain ⟨again, t'', hagain, -, hsame⟩ := regeneration_changes_nothing (by decide)
    (Job.straight_of_plain hplain hstraight) rfl rfl hrun
  exact ⟨report, t', again, t'', hrun, hagain, hsame⟩

end Generation

end CrudBackend
