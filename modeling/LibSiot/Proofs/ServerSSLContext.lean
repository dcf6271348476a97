/-
Module: LibSiot.Proofs.ServerSSLContext
Purpose: The certificate chain is an ordered set: `AddChainCertPath` refines the
  insertion of `OrderedSet`, and the results about that carry over.
Trusted boundary: none
Main exports: ServerSSLContext.chainCerts_addChainCertPaths,
  ServerSSLContext.getChainCertPaths_firstOccurrences
-/
import LibSiot.Library.OrderedSet
import LibSiot.ServerSSLContext

namespace LibSiot

namespace ServerSSLContext

/-- The scan of the loop finds a path exactly if it is in the list. -/
theorem chainCerts_addChainCertPath (context : ServerSSLContext) (certFile : Path) :
    (context.addChainCertPath certFile).chainCerts =
      OrderedSet.addLast context.chainCerts certFile := by
  have scan : context.chainCerts.any (fun path => path == certFile) = true ↔
      certFile ∈ context.chainCerts := by
    simp
  by_cases there : certFile ∈ context.chainCerts
  · rw [addChainCertPath, if_pos (scan.mpr there), OrderedSet.addLast_of_mem there]
  · rw [addChainCertPath, if_neg (there ∘ scan.mp), OrderedSet.addLast_of_notMem there]

theorem chainCerts_addChainCertPaths (context : ServerSSLContext) (paths : List Path) :
    (context.addChainCertPaths paths).chainCerts =
      paths.foldl OrderedSet.addLast context.chainCerts := by
  induction paths generalizing context with
  | nil => rfl
  | cons path paths ih =>
      rw [List.foldl_cons, ← chainCerts_addChainCertPath]
      exact ih (context.addChainCertPath path)

/-- The chain of a new context is the distinct paths that were added, in the order of
their first occurrence, and to add a path again changes nothing. -/
theorem getChainCertPaths_firstOccurrences (certFile keyFile : Path) (paths : List Path) :
    OrderedSet.FirstOccurrences paths
        ((new certFile keyFile).addChainCertPaths paths).getChainCertPaths ∧
      ∀ before path after, path ∈ before → paths = before ++ path :: after →
        ((new certFile keyFile).addChainCertPaths paths).getChainCertPaths =
          ((new certFile keyFile).addChainCertPaths (before ++ after)).getChainCertPaths := by
  simp only [getChainCertPaths, chainCerts_addChainCertPaths]
  refine ⟨OrderedSet.FirstOccurrences.foldl paths, ?_⟩
  rintro before path after again rfl
  exact OrderedSet.foldl_repeated again after

/-- The path `b` again, after `a`. -/
theorem getChainCertPaths_repeated :
    OrderedSet.FirstOccurrences [[98], [97], [98]]
        ((new [] []).addChainCertPaths [[98], [97], [98]]).getChainCertPaths ∧
      ((new [] []).addChainCertPaths [[98], [97], [98]]).getChainCertPaths =
        ((new [] []).addChainCertPaths [[98], [97]]).getChainCertPaths := by
  obtain ⟨first, again⟩ := getChainCertPaths_firstOccurrences [] [] [[98], [97], [98]]
  exact ⟨first, again [[98], [97]] [98] [] (by decide) rfl⟩

/-- Of the paths `b`, `a`, `b`, `c`, `a` the chain is `b`, `a`, `c`. -/
example :
    ((new [] []).addChainCertPaths [[98], [97], [98], [99], [97]]).getChainCertPaths =
      [[98], [97], [99]] := by
  decide

end ServerSSLContext

end LibSiot
