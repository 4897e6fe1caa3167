import Hoverfly.Cid.Codec

/-! A content host and the gateway's own host lead to one daemon. -/
namespace Hoverfly.Cid

structure LocationLike where
  protocol : List Char
  host : List Char

def daemonOrigin (loc : LocationLike) : List Char := loc.protocol ++ ['/', '/'] ++ (parseHost loc.host).rootHost

def subdomainUrl (cid : List Char) (loc : LocationLike) (pathname search : List Char) : List Char :=
  loc.protocol ++ ['/', '/'] ++ cid ++ '.' :: (parseHost loc.host).rootHost ++ pathname ++ search

def endsHost (c : Char) : Bool := c = '/' || c = '\\' || c = '?' || c = '#'

def urlHost : List Char → List Char
  | '/' :: '/' :: rest => rest.takeWhile fun c => !endsHost c
  | _ :: rest => urlHost rest
  | [] => []

theorem rootHost_eq {host hostname : List Char} {port : Option (List Char)}
    (parts : splitHostPort host = (hostname, port)) :
    ∃ n < (hostname.splitOn '.').length,
      (parseHost host).rootHost = withPort port (joinLabels ((hostname.splitOn '.').drop n)) ∧
      ((hostname.splitOn '.')[n]? = some gatewayInfix ∨ gatewayInfix ∉ hostname.splitOn '.' ∧
        (n = 0 ∨ n = 1 ∧ looksLikeCid ((hostname.splitOn '.').headD []) = true)) := by
  have joined : joinLabels (hostname.splitOn '.') = hostname := List.intercalate_splitOn ..
  have some_ : 0 < (hostname.splitOn '.').length := List.length_pos_iff.mpr (List.splitOnP_ne_nil _ _)
  unfold parseHost
  simp only [parts]
  generalize hostname.splitOn '.' = labels at joined some_
  by_cases found : labels.idxOf gatewayInfix < labels.length
  · refine ⟨labels.idxOf gatewayInfix, found, ?_, .inl ?_⟩
    · rw [if_pos found]
      split_ifs <;> rfl
    · rw [List.getElem?_eq_getElem found, List.getElem_idxOf]
  · have absent : gatewayInfix ∉ labels := fun member => found (List.idxOf_lt_length_iff.mpr member)
    rw [if_neg found]
    by_cases content : labels.length ≥ 2 ∧ looksLikeCid (labels.headD []) = true
    · exact ⟨1, content.1, by rw [if_pos content], .inr ⟨absent, .inr ⟨rfl, content.2⟩⟩⟩
    · exact ⟨0, some_, by rw [if_neg content, List.drop_zero, joined], .inr ⟨absent, .inl rfl⟩⟩

theorem infixFirst_dot (rest : List Char) : InfixFirst (gatewayInfix ++ '.' :: rest) := by
  right
  rw [splitHostPort_dot (by decide), List.splitOn_append_cons_self_of_not_mem (by decide), List.head?_cons]

theorem infixFirst_rootHost (host : List Char) : InfixFirst (parseHost host).rootHost := by
  have numbered : ∀ p, (splitHostPort host).2 = some p → ':' ∉ p := by
    obtain same | ⟨name, port, -, plain, same⟩ := splitHostPort_cases host <;> simp_all
  have whole := withPort_splitHostPort host
  rcases parts : splitHostPort host with ⟨hostname, port⟩
  rw [parts] at numbered whole
  have joined : joinLabels (hostname.splitOn '.') = hostname := List.intercalate_splitOn ..
  obtain ⟨n, inside, root, here | ⟨absent, rfl | ⟨rfl, label⟩⟩⟩ := rootHost_eq parts
  · rw [root, List.drop_eq_getElem?_toList_append, here]
    cases List.drop (n + 1) (hostname.splitOn '.') with
    | nil =>
      have alone : gatewayInfix.splitOn '.' = [gatewayInfix] := by decide
      right
      simp only [Option.toList_some, List.append_nil, joinLabels, List.intercalate_singleton]
      rw [splitHostPort_withPort (by decide) numbered, alone, List.head?_cons]
    | cons l rest =>
      rw [Option.toList_some, List.singleton_append, withPort_joinLabels port gatewayInfix (List.cons_ne_nil l rest)]
      exact infixFirst_dot _
  · left
    rwa [root, List.drop_zero, joined, whole, parts]
  · obtain ⟨first, rest, labels⟩ := List.exists_cons_of_length_pos (Nat.zero_lt_of_lt inside)
    rw [labels] at joined absent inside label root
    have some_ : rest ≠ [] := List.length_pos_iff.mp (Nat.lt_of_succ_lt_succ inside)
    obtain ⟨dot, colon, -⟩ := plain_of_looksLikeCid (show looksLikeCid first = true from label)
    rw [← joined, withPort_joinLabels port first some_] at whole
    have again := splitHostPort_dot colon (withPort port (joinLabels rest))
    rw [whole, parts] at again
    rw [(Prod.mk.inj again).1, List.splitOn_append_cons_self_of_not_mem dot, List.cons.injEq] at labels
    left
    rw [root, List.drop_succ_cons, List.drop_zero, labels.2]
    exact fun member => absent (List.mem_cons_of_mem _ member)

theorem suffix_drop (port : Option (List Char)) {labels : List (List Char)} {n : Nat} (inside : n < labels.length) :
    withPort port (joinLabels (labels.drop n)) <:+ withPort port (joinLabels labels) := by
  induction n generalizing labels with
  | zero => exact List.suffix_rfl
  | succ n ih =>
    obtain ⟨first, rest, rfl⟩ := List.exists_cons_of_length_pos (Nat.zero_lt_of_lt inside)
    have deeper : n < rest.length := Nat.lt_of_succ_lt_succ inside
    rw [withPort_joinLabels port first (List.ne_nil_of_length_pos (Nat.zero_lt_of_lt deeper))]
    exact (ih deeper).trans ((List.suffix_cons ..).trans (List.suffix_append ..))

theorem rootHost_suffix (host : List Char) : (parseHost host).rootHost <:+ host := by
  obtain ⟨n, inside, root, -⟩ := rootHost_eq (Prod.mk.eta (p := splitHostPort host)).symm
  have suffix := suffix_drop (splitHostPort host).2 inside
  rwa [← root, joinLabels, List.intercalate_splitOn, withPort_splitHostPort] at suffix

theorem urlHost_append {protocol host : List Char} (scheme : '/' ∉ protocol) (plain : ∀ c ∈ host, endsHost c = false)
    (rest : List Char) : urlHost (protocol ++ '/' :: '/' :: (host ++ '/' :: rest)) = host := by
  induction protocol with
  | nil =>
    have stop : ∀ c ∈ host, (!endsHost c) = true := by simpa using plain
    rw [List.nil_append, urlHost, List.takeWhile_append_of_pos stop]
    simp [endsHost]
  | cons c protocol ih =>
    simp only [List.mem_cons, not_or] at scheme
    rw [List.cons_append, urlHost]
    · exact ih scheme.2
    · intro rest same _
      exact scheme.1 same.symm

theorem content_origin_agrees (host cid : List Char) (label : looksLikeCid cid = true) :
    let root := (parseHost host).rootHost
    parseHost (cid ++ '.' :: root) = { kind := .subdomain, id := some cid, rootHost := root } ∧
    ∀ protocol pathname search,
      subdomainUrl cid ⟨protocol, host⟩ pathname search =
        protocol ++ ['/', '/'] ++ (cid ++ '.' :: root) ++ pathname ++ search ∧
      daemonOrigin ⟨protocol, cid ++ '.' :: root⟩ = daemonOrigin ⟨protocol, host⟩ ∧
      ('/' ∉ protocol → host.all (fun c => !endsHost c) = true →
        daemonOrigin ⟨protocol, urlHost (subdomainUrl cid ⟨protocol, host⟩ ('/' :: pathname) search)⟩ =
          daemonOrigin ⟨protocol, host⟩) := by
  intro root
  have content := parseHost_content label (infixFirst_rootHost host)
  refine ⟨content, fun protocol pathname search => ⟨by simp [subdomainUrl, root], ?_, fun scheme plain => ?_⟩⟩
  · simp only [daemonOrigin, root, content]
  · have bare : ∀ c ∈ cid ++ '.' :: root, endsHost c = false := by
      intro c member
      rcases List.mem_append.mp member with named | rest
      · by_contra ends
        simp only [endsHost, Bool.not_eq_false, Bool.or_eq_true, decide_eq_true_eq] at ends
        rcases ends with ((rfl | rfl) | rfl) | rfl <;> exact notMem_of_looksLikeCid label (by decide) named
      · rcases List.mem_cons.mp rest with rfl | rest
        · decide
        · have kept := List.all_eq_true.mp plain c ((rootHost_suffix host).subset rest)
          simpa using kept
    have here := urlHost_append scheme bare (pathname ++ search)
    have url : subdomainUrl cid ⟨protocol, host⟩ ('/' :: pathname) search =
        protocol ++ '/' :: '/' :: ((cid ++ '.' :: root) ++ '/' :: (pathname ++ search)) := by
      simp [subdomainUrl, root]
    rw [url, here]
    simp only [daemonOrigin, root, content]

/-- A content page of the apex links to another one, with a port. -/
theorem content_origin_agrees_apex :
    let first := 'b' :: List.replicate 58 'a'
    let next := 'b' :: List.replicate 60 '7'
    let host := first ++ ".browserbzz.link:8443".toList
    parseHost (next ++ ".browserbzz.link:8443".toList) =
        { kind := .subdomain, id := some next, rootHost := "browserbzz.link:8443".toList } ∧
      daemonOrigin ⟨"https:".toList, urlHost (subdomainUrl next ⟨"https:".toList, host⟩ ['/'] [])⟩ =
        "https://browserbzz.link:8443".toList := by
  intro first next host
  have root : (parseHost host).rootHost = "browserbzz.link:8443".toList := by decide +kernel
  obtain ⟨content, links⟩ := content_origin_agrees host next (by decide +kernel)
  obtain ⟨-, -, same⟩ := links "https:".toList [] []
  rw [root] at content
  refine ⟨content, (same (by decide) (by decide +kernel)).trans ?_⟩
  rw [daemonOrigin, root]
  decide +kernel

end Hoverfly.Cid
