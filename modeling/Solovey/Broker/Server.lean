import Solovey.Broker.FileJournal

/-!
# The server around the journal

The response to a mutation whose handler has no result, and the policies with which the mutations of
the SSH broker are completed. What a handler returns is arbitrary.
-/

namespace Solovey.Broker

open Solovey.Text Solovey.Json

def protocolVersion : Int64 := 1
def capabilityRevision : String := "broker-capabilities-1.3"

def successResponse (request : Request) : Response :=
  { protocolVersion, capabilityRevision, requestID := request.requestID,
    operationID := request.operationID, verb := request.verb, ok := true }

/-! ## The mutations of the SSH broker -/

def verbSSHReleaseStage : Verb := "ssh.dropin.stage.release"
def verbSSHReload : Verb := "ssh.service.reload"
def verbSSHRestore : Verb := "ssh.dropin.restore"

def completedMutationLifecycle (verb : Verb) : CompletionPolicy :=
  if verb = verbSSHStage then ⟨true, ""⟩
  else if verb = verbSSHRestore then ⟨false, verbSSHStage⟩
  else if verb = verbSSHReleaseStage then ⟨false, verbSSHStage⟩
  else ⟨false, ""⟩

end Solovey.Broker
