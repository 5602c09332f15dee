import ScriptHost.Console.LogFile
import ScriptHost.Engine.Scripted
import ScriptHost.IdleSlot.Callers
import ScriptHost.Main
import ScriptHost.Service.Clients
import ScriptHost.Service.Directive
import ScriptHost.WaitQueue.Callers
import ScriptHost.Proofs.LeaseAccounts
import ScriptHost.Proofs.LeaseExclusivity
import ScriptHost.Proofs.TrafficOfMoves
import ScriptHost.Proofs.RequestTraffic
import ScriptHost.Proofs.RequestCells
import ScriptHost.Proofs.LoopClosing
import ScriptHost.Proofs.UnservedCalls
import ScriptHost.Proofs.LocalMoves
import ScriptHost.Proofs.LocalOfMoves
import ScriptHost.Proofs.FitRuns
import ScriptHost.Proofs.AtMostOnce
import ScriptHost.Proofs.EngineConcurrency
import ScriptHost.Proofs.FrameStack
import ScriptHost.Proofs.LeaseDelivery
import ScriptHost.Proofs.Outcomes
import ScriptHost.Proofs.OutcomesOfMoves
import ScriptHost.Proofs.FrameMoves
import ScriptHost.Proofs.LoopFrames
import ScriptHost.Proofs.ParkedRequests
import ScriptHost.Proofs.SlotPermit
import ScriptHost.Proofs.FirmReplies
import ScriptHost.Proofs.WaitingCalls
import ScriptHost.Proofs.CancelledCalls
import ScriptHost.Proofs.InvocationTurns
import ScriptHost.Proofs.SessionMoves
import ScriptHost.Proofs.SessionStates
import ScriptHost.Proofs.AbortCourses
import ScriptHost.Proofs.RunningSessions
import ScriptHost.Proofs.DebuggerResumes
import ScriptHost.Proofs.AdmittedCalls
import ScriptHost.Proofs.Disposal
import ScriptHost.Proofs.ItemConservation
import ScriptHost.Proofs.StackNeutrality
import ScriptHost.Proofs.PermitLine
import ScriptHost.Proofs.SlotBeats
import ScriptHost.Proofs.SlotHolders
import ScriptHost.Proofs.RequestLedger
import ScriptHost.Proofs.RequestFrames
import ScriptHost.Proofs.ParkingOrder
import ScriptHost.Proofs.RequestFates
import ScriptHost.Proofs.ArrivalOrder
import ScriptHost.Proofs.LeaseWaiters
import ScriptHost.Proofs.Announcements
import ScriptHost.Proofs.PublishedEvents
import ScriptHost.Proofs.RunspaceFrames
import ScriptHost.Proofs.EngineSessions
import ScriptHost.Proofs.CommandWork
import ScriptHost.Proofs.RunspaceTracking
import ScriptHost.Proofs.KnownRunspaces
import ScriptHost.Proofs.FrameIsolation
import ScriptHost.Proofs.HostedThreads
import ScriptHost.Proofs.EngineBrackets
import ScriptHost.Proofs.EventFanOut
import ScriptHost.Proofs.RerunTexts
import ScriptHost.Proofs.RenderedOutput
import ScriptHost.Proofs.RenderedRecords
import ScriptHost.Proofs.Reconciliation
import ScriptHost.Proofs.CancelledDequeues
import ScriptHost.Proofs.BlockedPuts
import ScriptHost.Proofs.ReadingMarks
import ScriptHost.Proofs.StackShape
import ScriptHost.Proofs.ExactSums
import ScriptHost.Proofs.VersionTexts
import ScriptHost.Proofs.WholeFloats
