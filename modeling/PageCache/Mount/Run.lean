import PageCache.Mount

namespace PageCache

-- What happens to a mount: it is asked something, or its storage changes by itself.
inductive Act (σ : Type) where
  | ask (op : Op)
  | change (become : σ → σ)

-- A read that starts polls all the fetches that it joins, in file order.
def Act.Prompt {σ : Type} : Act σ → Prop
  | .ask (.read _ _ _ turns) => turns.Prompt
  | _ => True

namespace Mount

variable {σ τ : Type}

def act (backend : Backend σ τ) (mount : Mount σ τ) : Act σ → Mount σ τ × Option Answer
  | .ask op =>
      let stepped := mount.step backend op
      (stepped.1, some stepped.2)
  | .change become => ({ mount with storage := become mount.storage }, none)

def run (backend : Backend σ τ) (mount : Mount σ τ) : List (Act σ) → Mount σ τ
  | [] => mount
  | act :: rest => run backend (mount.act backend act).1 rest

-- The answers of a run, one for each act.
def answers (backend : Backend σ τ) (mount : Mount σ τ) : List (Act σ) → List (Option Answer)
  | [] => []
  | act :: rest =>
      let acted := mount.act backend act
      acted.2 :: answers backend acted.1 rest

theorem run_append (backend : Backend σ τ) (mount : Mount σ τ) (first second : List (Act σ)) :
    mount.run backend (first ++ second) = (mount.run backend first).run backend second := by
  induction first generalizing mount with
  | nil => rfl
  | cons act rest ih => exact ih _

end Mount

end PageCache
