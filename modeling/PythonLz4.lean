import PythonLz4.Lib.HistoryWindow
import PythonLz4.Lib.LittleEndian
import PythonLz4.Lib.ByteMemory
import PythonLz4.Lib.RecordStream
import PythonLz4.Block.DecompressGeneric
import PythonLz4.Block.DecoderFacts
import PythonLz4.Block.DecodeBlock
import PythonLz4.Block.HistoryCongruence
import PythonLz4.Block.LastLiterals
import PythonLz4.Runtime
import PythonLz4.Block.Container
import PythonLz4.Stream.Continue
import PythonLz4.Stream.Context
import PythonLz4.Stream.Mirror
import PythonLz4.Stream.Compressors
import PythonLz4.Stream.Session
import PythonLz4.Stream.Framing
import PythonLz4.Stream.FailedCalls
import PythonLz4.Stream.DictionaryLifetime
import PythonLz4.Stream.WideDecoder
import PythonLz4.Stream.SizeBounds
import PythonLz4.Stream.Allocation
import PythonLz4.Stream.CompressRuns
import PythonLz4.Stream.CompressFailures
import PythonLz4.Frame.XXHash
import PythonLz4.Frame.Header
import PythonLz4.Frame.DecompressionContext
import PythonLz4.Frame.AbstractDecoder
import PythonLz4.Frame.BytewiseDecoder
import PythonLz4.Frame.Feeding
import PythonLz4.Frame.HistoryRefinement
import PythonLz4.Frame.DecoderRefinement
import PythonLz4.Frame.CallBounds
import PythonLz4.Frame.BytewiseRefinement
import PythonLz4.Frame.DecompressChunk
import PythonLz4.Frame.LoopProgress
import PythonLz4.Frame.CompressionContext
import PythonLz4.Frame.CompressChunk
import PythonLz4.Frame.CompressBounds
import PythonLz4.Frame.BufferRoom
import PythonLz4.Frame.UndeliveredOutput
import PythonLz4.Frame.Delivery
import PythonLz4.Frame.ChunkRuns
import PythonLz4.Frame.FrameStream
import PythonLz4.Frame.OneShot
import PythonLz4.Lib.LongestMatch
import PythonLz4.Fast.BlockFunctions
