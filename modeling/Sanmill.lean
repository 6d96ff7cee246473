import Sanmill.Core.Game
import Sanmill.Mill.OpeningBook
import Sanmill.Mill.Workbench
import Sanmill.Proof.Keys
import Sanmill.Proof.Generators
import Sanmill.Proof.Capacity
import Sanmill.Search.Root
import Sanmill.Proof.Search.Abort
import Sanmill.Proof.Search.Mcts
import Sanmill.Proof.PerfectDb.CanonicalKey
import Sanmill.Proof.HumanDb.Decode
import Sanmill.Proof.OpeningBook.Canonical
import Sanmill.Lib.Run
import Sanmill.Proof.Online.Interleaving
import Sanmill.Proof.Mif.Outcome
import Sanmill.Proof.Mif.Trace
import Sanmill.Proof.Mif.LogicalTurns
import Sanmill.Proof.Mif.Accepts
import Sanmill.Proof.Mif.LegalActions
import Sanmill.Proof.PerfectDb.InverseBoard
import Sanmill.Frb.ActiveSearch
import Sanmill.Proof.Frb.ActiveSearch
import Sanmill.Frb.Ponder
import Sanmill.Frb.DepthDriver
import Sanmill.Proof.Search.BestMove
import Sanmill.Proof.Frb.DepthDriver
import Sanmill.Proof.Frb.Ponder
import Sanmill.Proof.Frb.Release
import Sanmill.Lib.Utf16
import Sanmill.Lib.JsonText
import Sanmill.Lib.JsonRoundTrip
import Sanmill.Lib.Stream
import Sanmill.Remote.Protocol
import Sanmill.Proof.Remote.Framing
import Sanmill.Proof.Remote.Delivery
import Sanmill.Mill.Setup
import Sanmill.Session.RulesPort
import Sanmill.Session.Session
import Sanmill.Session.SetupController
import Sanmill.Proof.BoardFrame
import Sanmill.Proof.LivePieces
import Sanmill.Proof.Session.Numbers
import Sanmill.Proof.Session.Consistency
import Sanmill.Proof.FenChecks
import Sanmill.Proof.FenExport
import Sanmill.Proof.Session.SetupController
import Sanmill.Lib.LittleEndian
import Sanmill.Lib.LoadCache
import Sanmill.PerfectDb.SectorFile
import Sanmill.PerfectDb.Database
import Sanmill.PerfectDb.WdlPlane
import Sanmill.Proof.PerfectDb.SectorFile
import Sanmill.Proof.PerfectDb.WdlPlane
import Sanmill.Proof.PerfectDb.PlaneCache
import Sanmill.Proof.PerfectDb.PlaneAgreement
import Sanmill.Lib.StableSort
import Sanmill.Proof.Search.MoveOrder
import Sanmill.Proof.Search.Tt
import Sanmill.Proof.PerfectDb.PlaneFile
import Sanmill.Proof.PerfectDb.SectorReaders
import Sanmill.PerfectDb.SecVal
import Sanmill.Proof.PerfectDb.SecVal
import Sanmill.Proof.MoveOrder
import Sanmill.Proof.FenArithmetic
import Sanmill.Proof.Stalemate
import Sanmill.Proof.LogicalTurn
import Sanmill.Proof.CachedKey
import Sanmill.Proof.Undo
import Sanmill.PerfectDb.Query
import Sanmill.Proof.PerfectDb.DbPlay
import Sanmill.Proof.PerfectDb.Query
import Sanmill.Lib.Ring
import Sanmill.Core.Repetition
import Sanmill.Proof.Repetition
import Sanmill.Lib.SparseMerkle
import Sanmill.Lib.SortedMap
import Sanmill.Mif.Identity
import Sanmill.Proof.Mif.Identity
import Sanmill.Lib.Grouping
import Sanmill.Pack.Build
import Sanmill.Proof.Pack.Build
import Sanmill.Lib.Forest
import Sanmill.Record.Transform
import Sanmill.Record.GameRecorder
import Sanmill.Proof.Record.Transform
import Sanmill.Proof.Record.GameRecorder
import Sanmill.Mif.Replay
import Sanmill.Mif.LegalActions
import Sanmill.Othello.Game
import Sanmill.Proof.Othello
import Sanmill.Mif.Transform
import Sanmill.Mif.Mpk
import Sanmill.Proof.Mif.Transform
import Sanmill.Proof.Mif.Mpk
import Sanmill.Proof.Reload
import Sanmill.Proof.Setup
import Sanmill.Mill.OpeningRecognizer
import Sanmill.Proof.Record.Compose
import Sanmill.Proof.OpeningBook.Candidates
import Sanmill.Proof.OpeningBook.Recognizer
import Sanmill.PerfectDb.TurnChoice
import Sanmill.Puzzle.Solver
import Sanmill.Lib.Transparent
import Sanmill.Lib.Expansion
import Sanmill.Proof.PerfectDb.FreshDatabase
import Sanmill.Proof.Puzzle.Turns
import Sanmill.Proof.Puzzle.Solver
import Sanmill.Proof.Puzzle.LostWin
import Sanmill.Proof.Puzzle.NearDraw
import Sanmill.Proof.Kernel
import Sanmill.Proof.FinitePlay
import Sanmill.Proof.Symmetry.Play
import Sanmill.Proof.Symmetry.Session
import Sanmill.Proof.Surfaces
import Sanmill.Proof.MillSearch
